import KubeAtlas.Kubeconfig.Basic
/-!
# Between mappings and documents

`ofMapping` reads the top-level mapping of a kubeconfig and `toMapping` builds it again. Reading
folds the named parts into tables: an entry needs a name and its body must be a mapping, which may
be left out. Where a value counts as absent, a fresh empty one takes its place.

Building follows the order of the keys that was found. A part that the document did not have before
appears only if it has content.
-/

namespace KubeAtlas.Kubeconfig

def field? (entries : Entries) (name : String) : Option Value :=
  Table.find? (Key.str name) entries

def present? (g : Graph) (entries : Entries) (name : String) : Option Value :=
  (field? entries name).filter g.isTruthy

def shown (g : Graph) (v : Value) : Except Failure Datum :=
  let d := g.unfold v
  if d.isShowable then pure d else throw (.fault .number)

namespace Part

def readEntry (p : Part) (g : Graph) (entry : Value) :
    Except Failure ((Label × Value) × Graph) :=
  match (g.entries? entry).bind fun es => (present? g es "name").map fun name => (es, name) with
  | none => throw (.format (.unnamedEntry p))
  | some (es, name) => do
    let name ← shown g name
    let (body, g) ← (match present? g es p.bodyKey with
      | none => pure (let (id, g) := g.alloc (.map []); (Value.ref id, g))
      | some body =>
        if (g.entries? body).isSome then pure (body, g)
        else throw (.format (.bodyNotMapping p name.display)))
    pure ((Label.str name.text, body), g)

def readEntries (p : Part) (g : Graph) : List Value → Except Failure (Entries × Graph)
  | [] => pure ([], g)
  | entry :: rest => do
    let (e, g) ← p.readEntry g entry
    let (es, g) ← p.readEntries g rest
    pure (e :: es, g)

/-- The table of a part. Of two entries with one name the later body is kept. -/
def read (p : Part) (g : Graph) (top : Entries) : Except Failure (Entries × Graph) :=
  match present? g top p.key with
  | none => pure ([], g)
  | some list =>
    match g.items? list with
    | none => throw (.format (.notList p))
    | some items => do
      let (es, g) ← p.readEntries g items
      pure (Table.ofList es, g)

def writeEntry (p : Part) (g : Graph) (e : Label × Value) : Value × Graph :=
  let (id, g) := g.alloc (.map [(.str "name", .leaf e.1), (.str p.bodyKey, e.2)])
  (.ref id, g)

def writeEntries (p : Part) (g : Graph) : Entries → List Value × Graph
  | [] => ([], g)
  | e :: rest =>
    let (v, g) := p.writeEntry g e
    let (vs, g) := p.writeEntries g rest
    (v :: vs, g)

def write (p : Part) (g : Graph) (es : Entries) : Value × Graph :=
  let (items, g) := p.writeEntries g es
  let (id, g) := g.alloc (.list items)
  (.ref id, g)

def isKey (k : Key) : Bool := all.any fun p => k = .str p.key

end Part

/-- k = .str currentCont || Whether a key has a meaning of its own at the top level. -/
def isManaged (k : Key) : Bool := Part.isKey k || k = .str currentContextKey

namespace Document

def ofMapping (g : Graph) (top : Entries) : Except Failure Document := do
  let (clusters, g) ← Part.clusters.read g top
  let (contexts, g) ← Part.contexts.read g top
  let (users, g) ← Part.users.read g top
  let current ← (match present? g top currentContextKey with
    | some v => do pure (Value.str (← shown g v).text)
    | none => pure .null)
  pure ⟨g, clusters, contexts, users, current,
    top.filter fun e => !isManaged (Labelled.key e.1), top.map fun e => .leaf e.1⟩

/-- The values of the managed keys, in the order in which missing ones are added. -/
def managed (d : Document) : Entries × Graph :=
  let (clusters, g) := Part.clusters.write d.graph d.clusters
  let (contexts, g) := Part.contexts.write g d.contexts
  let (users, g) := Part.users.write g d.users
  let current := if g.isTruthy d.currentContext then d.currentContext else .str ""
  ([(.str Part.clusters.key, clusters), (.str Part.contexts.key, contexts),
    (.str Part.users.key, users), (.str currentContextKey, current)], g)

def hadKey (d : Document) (l : Label) : Bool := d.keyOrder.any fun v => v.is l

def written (d : Document) : Entries × Graph :=
  let (all, g) := d.managed
  (all.filter fun e => d.hadKey e.1 || g.isTruthy e.2, g)

/-- Takes the keys that were found one after the other: a managed value is taken once, and after
that, as for any other key, the carried value counts. -/
def arrange (extra : Entries) : Entries → Entries → List Value → Except Failure (Entries × Entries)
  | out, left, [] => pure (out, left)
  | out, left, v :: rest =>
    match v with
    | .ref _ => throw .unusableKey
    | .leaf l =>
      match Table.find? l.key left with
      | some w => arrange extra (Table.put l w out) (Table.erase l.key left) rest
      | none =>
        match Table.find? l.key extra with
        | some w => arrange extra (Table.put l w out) left rest
        | none => arrange extra out left rest

def addMissing (entries out : Entries) : Entries :=
  entries.foldl (fun out e =>
    if Table.contains (Labelled.key e.1 : Key) out then out else Table.put e.1 e.2 out) out

def toMapping (d : Document) : Except Failure (Entries × Graph) := do
  let (left, g) := d.written
  let (out, left) ← arrange d.extra [] left d.keyOrder
  pure (Table.putAll left (addMissing d.extra out), g)

end Document
end KubeAtlas.Kubeconfig
