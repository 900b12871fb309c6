import KubeAtlas.Datum
import KubeAtlas.Table
/-!
# Values with identity

A document in memory is more than a tree: one mapping can be reached from several places, and it
can hold itself. Both are visible, the first in the anchors of the written text, the second in
everything that walks the document. So a value is either a label, which is compared by what it says,
or a reference to a cell of a graph, which holds a container.

Labels are also what mappings are keyed by. Dates and moments carry the number of the cell that was
taken for them, because a date reached twice is written once and referred to afterwards.
-/

namespace KubeAtlas

/-- A value that can be a key of a mapping. -/
inductive Label where
  | scalar (s : Scalar)
  | date (id : Nat) (d : Date)
  | moment (id : Nat) (m : Moment)
  | tuple (id : Nat) (items : List Label)
deriving Repr, Inhabited

/-- A value: a label, or the container in a cell. -/
inductive Value where
  | leaf (l : Label)
  | ref (id : Nat)
deriving Repr, Inhabited

inductive Cell where
  /-- An identity without contents, taken for a label. -/
  | mark
  | list (items : List Value)
  | tuple (items : List Value)
  | set (items : List Label)
  | map (entries : List (Label × Value))
deriving Repr, Inhabited

structure Graph where
  cells : Array Cell
deriving Repr, Inhabited

namespace Label

abbrev str (s : String) : Label := .scalar (.str s)

mutual

/-- What a mapping compares the label by. -/
def key : Label → Key
  | scalar s => .atom s.key
  | date _ d => .atom (.date d)
  | moment _ m => .atom m.key
  | tuple _ items => .tuple (keys items)

def keys : List Label → List Key
  | [] => []
  | l :: rest => key l :: keys rest

end

mutual

def datum : Label → Datum
  | scalar s => .scalar s
  | date _ d => .date d
  | moment _ m => .moment m
  | tuple _ items => .tuple (data items)

def data : List Label → List Datum
  | [] => []
  | l :: rest => datum l :: data rest

end

def isTruthy : Label → Bool
  | scalar s => s.isTruthy
  | date _ _ | moment _ _ => true
  | tuple _ items => !items.isEmpty

def kind : Label → Kind
  | scalar s => s.kind
  | date _ _ => .date
  | moment _ _ => .moment
  | tuple _ _ => .tuple

def str? : Label → Option String
  | scalar (.str s) => some s
  | _ => none

def text (l : Label) : String := l.datum.text

end Label

instance : Labelled Label Key := ⟨Label.key⟩

namespace Value

abbrev null : Value := .leaf (.scalar .null)
abbrev str (s : String) : Value := .leaf (.str s)

def key? : Value → Option Key
  | leaf l => some l.key
  | ref _ => none

def is (v : Value) (l : Label) : Bool := v.key? = some l.key

end Value

namespace Cell

def kind : Cell → Kind
  | mark | list _ => .list
  | tuple _ => .tuple
  | set _ => .set
  | map _ => .map

def isEmpty : Cell → Bool
  | mark => true
  | list items | tuple items => items.isEmpty
  | set items => items.isEmpty
  | map entries => entries.isEmpty

end Cell

namespace Graph

def empty : Graph := ⟨#[]⟩

/-- The contents of a cell. A reference always points at a cell; a number that does not is read as
an identity without contents. -/
def cell (g : Graph) (id : Nat) : Cell := g.cells.getD id .mark

def alloc (g : Graph) (c : Cell) : Nat × Graph := (g.cells.size, ⟨g.cells.push c⟩)

def set (g : Graph) (id : Nat) (c : Cell) : Graph := ⟨g.cells.setIfInBounds id c⟩

def cell? (g : Graph) : Value → Option Cell
  | .ref id => some (g.cell id)
  | .leaf _ => none

def entries? (g : Graph) (v : Value) : Option (List (Label × Value)) :=
  match g.cell? v with
  | some (.map entries) => some entries
  | _ => none

def items? (g : Graph) (v : Value) : Option (List Value) :=
  match g.cell? v with
  | some (.list items) => some items
  | _ => none

def isTruthy (g : Graph) : Value → Bool
  | .leaf l => l.isTruthy
  | .ref id => !(g.cell id).isEmpty

def kind (g : Graph) : Value → Kind
  | .leaf l => l.kind
  | .ref id => (g.cell id).kind

theorem cell_set_self (g : Graph) (id : Nat) (c : Cell) (h : id < g.cells.size) :
    (g.set id c).cell id = c := by
  simp [set, cell, Array.getD, h]

theorem cell_set_of_ne (g : Graph) (id other : Nat) (c : Cell) (h : id ≠ other) :
    (g.set id c).cell other = g.cell other := by
  simp only [set, cell, Array.getD_eq_getD_getElem?, Array.getElem?_setIfInBounds_ne h]

theorem cell_alloc_of_lt (g : Graph) (c : Cell) (id : Nat) (h : id < g.cells.size) :
    (g.alloc c).2.cell id = g.cell id := by
  have h' : id < g.cells.size + 1 := Nat.lt_succ_of_lt h
  simp [alloc, cell, Array.getD, h, h', Array.getElem_push_lt]

theorem cell_alloc_self (g : Graph) (c : Cell) : (g.alloc c).2.cell (g.alloc c).1 = c := by
  simp [alloc, cell, Array.getD]

end Graph
end KubeAtlas
