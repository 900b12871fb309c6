import KubeAtlas.Kubeconfig.Mapping
/-!
# Renaming the cluster of a document

A document for one cluster names the cluster, its context and the context in use alike. Renaming
gives all three a new name, and every context that refers to the cluster is made to refer to the new
name. A document with several clusters is refused, because it does not say which one is meant.
-/

namespace KubeAtlas.Kubeconfig

/-- a == b || Whether one text comes before another, by code points. -/
def textLe (a b : String) : Bool := a < b || a == b

/-- The names of a table in order, if all of them are text. -/
def sortedNames? (entries : Entries) : Option (List String) :=
  (entries.mapM fun (e : Label × Value) => e.1.str?).map fun names => names.mergeSort textLe

/-- Makes a context refer to the new name if it refers to the old one. -/
def repoint (old : Label) (new : String) (g : Graph) (context : Value) : Except Failure Graph :=
  match context, g.entries? context with
  | .ref id, some entries =>
    match field? entries "cluster" with
    | some v =>
      if v.is old then pure (g.set id (.map (Table.put (Label.str "cluster") (.str new) entries)))
      else pure g
    | none =>
      if old.key = .atom .null then
        pure (g.set id (.map (Table.put (Label.str "cluster") (.str new) entries)))
      else pure g
  | _, _ => throw .context

/-- The entries with the name of one of them replaced. If the new name is taken, the entry that
stands first keeps its place and the body of the last is kept. -/
def renameKey (old : Label) (new : String) (entries : Entries) : Entries :=
  Table.ofList (entries.map fun e => if e.1.key = old.key then (Label.str new, e.2) else e)

def rename (d : Document) (new : String) : Except Failure Document :=
  if new.isEmpty then throw (.format .emptyName)
  else
    match d.clusters with
    | [] => pure d
    | [(old, body)] =>
      if old.key = .str new then pure d
      else do
        let g ← d.contexts.foldlM (fun g e => repoint old new g e.2) d.graph
        pure { d with
          graph := g
          clusters := [(.str new, body)]
          contexts := renameKey old new d.contexts
          currentContext := if d.currentContext.is old then .str new else d.currentContext }
    | clusters =>
      match sortedNames? clusters with
      | some names => throw (.format (.severalClusters names))
      | none => throw .clusterNames

end KubeAtlas.Kubeconfig
