import KubeAtlas.Graph.Basic
import KubeAtlas.Number.Reading
import KubeAtlas.Text.Base64
import KubeAtlas.Yaml.Error
import KubeAtlas.Yaml.Tag
/-!
# The shape of a written document

A document is written as a tree. The first time a container is reached it is written out, and every
later time it is an alias; a container that is reached more than once is given a name. Dates count
as containers here. Names are numbered in the order in which the second way to a container is met,
which takes one walk through the graph before the tree is built.

A walk goes down at most as far as there are cells, since it goes into each cell once.
-/

namespace KubeAtlas.Yaml

inductive Shape where
  | alias (name : String)
  /-- A scalar; `block` for one that is written as a block where that is possible. -/
  | scalar (anchor : Option String) (tag : Tag) (block : Bool) (text : String)
  | sequence (anchor : Option String) (items : List Shape)
  | mapping (anchor : Option String) (tag : Tag) (entries : List (Shape × Shape))
deriving Repr

/-- What is known of a graph after a part of the walk: which cells were reached, and those of them
that were reached again, the last first. -/
structure Survey where
  reached : Array Bool
  named : List Nat

namespace Survey

def start (g : Graph) : Survey := ⟨Array.replicate g.cells.size false, []⟩

/-- Reaches a cell; whether it is the first time. -/
def reach (s : Survey) (id : Nat) : Bool × Survey :=
  if s.reached.getD id true then
    (false, if s.named.contains id then s else { s with named := id :: s.named })
  else (true, { s with reached := s.reached.setIfInBounds id true })

def scalar (s : Survey) : Scalar → Except Failure Survey
  | .foreign _ => throw (.malformed .unrepresentable)
  | .int n => if Number.isWritable n then pure s else throw (.fault .number)
  | _ => pure s

mutual

def label (s : Survey) : Label → Except Failure Survey
  | .scalar v => s.scalar v
  | .date id _ | .moment id _ => pure (s.reach id).2
  | .tuple _ [] => pure s
  | .tuple id items =>
    match s.reach id with
    | (true, s) => s.labels items
    | (false, s) => pure s

def labels (s : Survey) : List Label → Except Failure Survey
  | [] => pure s
  | l :: rest => do (← s.label l).labels rest

end

mutual

def value (g : Graph) : Nat → Survey → Value → Except Failure Survey
  | _, s, .leaf l => s.label l
  | 0, s, .ref _ => pure s
  | depth + 1, s, .ref id =>
    match g.cell id with
    | .tuple [] => pure s
    | c =>
      match s.reach id with
      | (false, s) => pure s
      | (true, s) =>
        match c with
        | .mark => pure s
        | .list items | .tuple items => several g depth s items
        | .set items => s.labels items
        | .map entries => entriesOf g depth s entries
termination_by depth => (depth, 0)

def several (g : Graph) (depth : Nat) (s : Survey) : List Value → Except Failure Survey
  | [] => pure s
  | v :: rest => do several g depth (← value g depth s v) rest
termination_by items => (depth, items.length + 1)

def entriesOf (g : Graph) (depth : Nat) (s : Survey) :
    List (Label × Value) → Except Failure Survey
  | [] => pure s
  | (l, v) :: rest => do entriesOf g depth (← value g depth (← s.label l) v) rest
termination_by entries => (depth, entries.length + 1)

end

def name? (s : Survey) (id : Nat) : Option String :=
  (s.named.reverse.findIdx? (· == id)).map fun n =>
    "id" ++ String.ofList (Text.decimalPad 3 (n + 1))

end Survey

namespace Shape

/-- The text of a real number, which always shows a point. -/
def floatText (x : Binary64) : String :=
  if x.isNaN then ".nan"
  else if x.isInfinite then (if x.isNegative then "-.inf" else ".inf")
  else
    let s := x.text.toList
    if s.contains '.' then String.ofList s
    else String.ofList (s.flatMap fun c => if c == 'e' then ['.', '0', 'e'] else [c])

def linesOf (size : Nat) : Nat → List Char → List Char
  | 0, _ => []
  | _, [] => []
  | fuel + 1, s => s.take size ++ '\n' :: linesOf size fuel (s.drop size)

def ofScalar : Scalar → Shape
  | .null => .scalar none .null false "null"
  | .bool b => .scalar none .bool false (if b then "true" else "false")
  | .int n => .scalar none .int false (toString n)
  | .float x => .scalar none .float false (floatText x)
  | .str s => .scalar none .str false s
  | .bytes b =>
    let s := Text.Base64.encode b
    .scalar none .binary true (String.ofList (linesOf 76 s.length s))
  | .foreign name => .scalar none .unknown false name

structure Progress where
  survey : Survey
  written : Array Bool

/-- Comes to a cell: the alias if it was written out before, otherwise its name if it has one. -/
def Progress.reach (p : Progress) (id : Nat) : (Shape ⊕ Option String) × Progress :=
  let name := p.survey.name? id
  if p.written.getD id false then (.inl (.alias (name.getD "")), p)
  else (.inr name, { p with written := p.written.setIfInBounds id true })

mutual

def ofLabel (p : Progress) : Label → Shape × Progress
  | .scalar v => (ofScalar v, p)
  | .date id d =>
    match p.reach id with
    | (.inl again, p) => (again, p)
    | (.inr anchor, p) => (.scalar anchor .timestamp false (String.ofList d.text), p)
  | .moment id m =>
    match p.reach id with
    | (.inl again, p) => (again, p)
    | (.inr anchor, p) => (.scalar anchor .timestamp false (String.ofList (m.text ' ')), p)
  | .tuple _ [] => (.sequence none [], p)
  | .tuple id items =>
    match p.reach id with
    | (.inl again, p) => (again, p)
    | (.inr anchor, p) =>
      let (items, p) := ofLabels p items
      (.sequence anchor items, p)

def ofLabels (p : Progress) : List Label → List Shape × Progress
  | [] => ([], p)
  | l :: rest =>
    let (s, p) := ofLabel p l
    let (ss, p) := ofLabels p rest
    (s :: ss, p)

end

mutual

def ofValue (g : Graph) : Nat → Progress → Value → Shape × Progress
  | _, p, .leaf l => ofLabel p l
  | 0, p, .ref _ => (.sequence none [], p)
  | depth + 1, p, .ref id =>
    match g.cell id with
    | .tuple [] => (.sequence none [], p)
    | c =>
      match p.reach id with
      | (.inl again, p) => (again, p)
      | (.inr anchor, p) =>
        match c with
        | .mark => (.sequence anchor [], p)
        | .list items | .tuple items =>
          let (items, p) := ofValues g depth p items
          (.sequence anchor items, p)
        | .set items =>
          let (items, p) := ofLabels p items
          (.mapping anchor .set (items.map fun i => (i, ofScalar .null)), p)
        | .map entries =>
          let (entries, p) := ofEntries g depth p entries
          (.mapping anchor .map entries, p)
termination_by depth => (depth, 0)

def ofValues (g : Graph) (depth : Nat) (p : Progress) : List Value → List Shape × Progress
  | [] => ([], p)
  | v :: rest =>
    let (s, p) := ofValue g depth p v
    let (ss, p) := ofValues g depth p rest
    (s :: ss, p)
termination_by items => (depth, items.length + 1)

def ofEntries (g : Graph) (depth : Nat) (p : Progress) :
    List (Label × Value) → List (Shape × Shape) × Progress
  | [] => ([], p)
  | (l, v) :: rest =>
    let (k, p) := ofLabel p l
    let (s, p) := ofValue g depth p v
    let (ss, p) := ofEntries g depth p rest
    ((k, s) :: ss, p)
termination_by entries => (depth, entries.length + 1)

end

def ofGraph (g : Graph) (v : Value) : Except Failure Shape := do
  let survey ← Survey.value g (g.cells.size + 1) (Survey.start g) v
  let written := Array.replicate g.cells.size false
  pure (ofValue g (g.cells.size + 1) ⟨survey, written⟩ v).1

end Shape
end KubeAtlas.Yaml
