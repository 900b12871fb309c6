import KubeAtlas.Graph.Basic
/-!
# From graphs to trees

`unfold` is what a value looks like from where it stands: a tree in which a container that holds
itself is cut. It goes down at most as far as there are cells, since a longer way down would meet a
cell twice and be cut there.
-/

namespace KubeAtlas.Graph

mutual

/-- The value as a tree, below the containers `above`, the innermost first. -/
def unfoldBelow (g : Graph) : Nat → List Nat → Value → Datum
  | _, _, .leaf l => l.datum
  | 0, _, .ref _ => .null
  | depth + 1, above, .ref id =>
    match above.findIdx? (· == id) with
    | some up => .cycle (up + 1)
    | none =>
      match g.cell id with
      | .mark => .null
      | .list items => .list (unfoldItems g depth (id :: above) items)
      | .tuple items => .tuple (unfoldItems g depth (id :: above) items)
      | .set items => .set (Label.data items)
      | .map entries => .map (unfoldEntries g depth (id :: above) entries)
termination_by depth => (depth, 0)

def unfoldItems (g : Graph) (depth : Nat) (above : List Nat) : List Value → List Datum
  | [] => []
  | v :: rest => unfoldBelow g depth above v :: unfoldItems g depth above rest
termination_by items => (depth, items.length + 1)

def unfoldEntries (g : Graph) (depth : Nat) (above : List Nat) :
    List (Label × Value) → List (Datum × Datum)
  | [] => []
  | (l, v) :: rest => (l.datum, unfoldBelow g depth above v) :: unfoldEntries g depth above rest
termination_by entries => (depth, entries.length + 1)

end

def unfold (g : Graph) (v : Value) : Datum := unfoldBelow g (g.cells.size + 1) [] v

def text (g : Graph) (v : Value) : String := (g.unfold v).text

end KubeAtlas.Graph
