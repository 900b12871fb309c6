import KubeAtlas.Graph.Unfold
/-!
# One level of a tree

A value that is a label is shown as it is, and a reference as a cut if it comes back to a container
above it. What is left is one level of a container, `unfoldCell`, whose values are shown below it.
Facts about trees are proved for such a level first and then by induction on the depth.
-/

namespace KubeAtlas

theorem Label.data_eq_map (items : List Label) : Label.data items = items.map Label.datum := by
  induction items with
  | nil => rfl
  | cons l rest ih => rw [data, ih, List.map_cons]

namespace Graph

variable {above : List Nat} {a : Nat}

theorem unfoldItems_eq_map (g : Graph) (depth : Nat) (above : List Nat) (items : List Value) :
    g.unfoldItems depth above items = items.map (g.unfoldBelow depth above) := by
  induction items with
  | nil => rw [unfoldItems, List.map_nil]
  | cons v rest ih => rw [unfoldItems, ih, List.map_cons]

theorem unfoldEntries_eq_map (g : Graph) (depth : Nat) (above : List Nat)
    (entries : List (Label × Value)) :
    g.unfoldEntries depth above entries =
      entries.map fun e => (e.1.datum, g.unfoldBelow depth above e.2) := by
  induction entries with
  | nil => rw [unfoldEntries, List.map_nil]
  | cons e rest ih => rw [unfoldEntries, ih, List.map_cons]

/-- A container as a tree, its values as they are shown one level down. -/
def unfoldCell (g : Graph) (depth : Nat) (above : List Nat) : Cell → Datum
  | .mark => .null
  | .list items => .list (items.map (g.unfoldBelow depth above))
  | .tuple items => .tuple (items.map (g.unfoldBelow depth above))
  | .set items => .set (Label.data items)
  | .map entries => .map (entries.map fun e => (e.1.datum, g.unfoldBelow depth above e.2))

theorem unfoldBelow_of_mem (g : Graph) (depth : Nat) (ha : a ∈ above) :
    g.unfoldBelow (depth + 1) above (.ref a) = .cycle ((above.findIdx? (· == a)).getD 0 + 1) := by
  rw [unfoldBelow]
  cases hfind : above.findIdx? (· == a) with
  | none => exact absurd (List.findIdx?_eq_none_iff.1 hfind a ha) (by simp)
  | some up => rfl

theorem unfoldBelow_of_notMem (g : Graph) (depth : Nat) (ha : a ∉ above) :
    g.unfoldBelow (depth + 1) above (.ref a) = g.unfoldCell depth (a :: above) (g.cell a) := by
  have hfind : above.findIdx? (· == a) = none := List.findIdx?_eq_none_iff.2 fun b hb => by
    simpa using fun h : b = a => ha (h ▸ hb)
  rw [unfoldBelow, hfind]
  cases g.cell a <;> simp only [unfoldCell, unfoldItems_eq_map, unfoldEntries_eq_map]

end Graph
end KubeAtlas
