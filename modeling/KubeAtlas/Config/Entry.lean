import KubeAtlas.Failure
import KubeAtlas.Kubeconfig.Mapping
/-!
# Entries of a configuration

A configuration file lists stores, each as a mapping. An entry has a kind, which is made text
whatever it was, and settings that must be a mapping if there are any. Its identifier, the wish to
show a name in front of paths, and the paths are kept as they stand: nothing in this module relies
on their kinds.

The values of an entry are trees, each seen from its own position. What they share with the rest of
the file does not matter after it was read.
-/

namespace KubeAtlas

structure StoreEntry where
  kind : Datum
  id : Datum
  /-- Whether paths are shown with a name in front; null leaves it open. -/
  showPrefix : Datum
  /-- A list, if the entry was read. -/
  paths : Datum
  /-- The settings of the store's kind, null if there are none. -/
  config : Datum
deriving Repr

namespace Graph

/-- The items of a value that is gone through one by one: the characters of a text, the numbers of
bytes and the keys of a mapping are items too. -/
def eachOf (g : Graph) (v : Value) : Except Failure (List Value) :=
  match v, g.cell? v with
  | _, some (.list items) | _, some (.tuple items) => pure items
  | _, some (.set items) => pure (items.map .leaf)
  | _, some (.map entries) => pure (entries.map fun e => .leaf e.1)
  | .leaf (.scalar (.str s)), _ => pure (s.toList.map fun c => .str (String.ofList [c]))
  | .leaf (.scalar (.bytes b)), _ => pure (b.map fun n => .leaf (.scalar (.int n.toNat)))
  | .leaf (.tuple _ items), _ => pure (items.map .leaf)
  | v, _ => throw (.wrongKind (.notIterable (g.kind v)))

def eachOf? (g : Graph) : Option Value → Except Failure (List Value)
  | some v => if g.isTruthy v then g.eachOf v else pure []
  | none => pure []

def unfoldOrNull (g : Graph) (v : Option Value) : Datum := (v.map g.unfold).getD .null

end Graph

namespace StoreEntry

def textOf (d : Datum) : Except Failure String :=
  if d.isShowable then pure d.text else throw (.document (.fault .number))

def configOf (g : Graph) (kind : Datum) (v : Option Value) : Except Failure Datum :=
  match g.unfoldOrNull v with
  | .scalar .null => pure .null
  | .map settings => pure (.map settings)
  | _ => do throw (.configuration (.configNotMapping (← textOf kind)))

def ofValue (g : Graph) (v : Value) : Except Failure StoreEntry :=
  match g.entries? v with
  | none => throw (.configuration .entryNotMapping)
  | some fields =>
    match Kubeconfig.present? g fields "kind" with
    | none => throw (.configuration .missingKind)
    | some kind => do
      let kind := g.unfold kind
      let config ← configOf g kind (Kubeconfig.field? fields "config")
      let kind ← textOf kind
      let paths ← g.eachOf? (Kubeconfig.field? fields "paths")
      pure ⟨.str kind, g.unfoldOrNull (Kubeconfig.field? fields "id"),
        g.unfoldOrNull (Kubeconfig.field? fields "showPrefix"), .list (paths.map g.unfold), config⟩

def isOfKind (e : StoreEntry) (kind : String) : Bool := e.kind.str? = some kind

end StoreEntry
end KubeAtlas
