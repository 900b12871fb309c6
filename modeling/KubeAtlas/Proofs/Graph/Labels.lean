import KubeAtlas.Proofs.Graph.Cells
/-!
# The labels of a graph

Whatever a document says, it says in labels: the keys of its mappings and the values that are no
containers. Reading, renaming and writing move labels about and add names of their own, so that a
property of all labels of a graph goes through them. `Graph.All` is that property, for any property
of a label.
-/

namespace KubeAtlas

variable {P : Label → Prop}

/-- A value that is no label, or one with the property. What it refers to is left open. -/
def Value.All (P : Label → Prop) : Value → Prop
  | leaf l => P l
  | ref _ => True

def Cell.All (P : Label → Prop) : Cell → Prop
  | mark => True
  | list items | tuple items => ∀ v ∈ items, v.All P
  | set items => ∀ l ∈ items, P l
  | map entries => ∀ e ∈ entries, P e.1 ∧ e.2.All P

theorem Cell.all_of_isEmpty {c : Cell} (hc : c.isEmpty = true) : c.All P := by
  cases c with
  | mark => trivial
  | list items | tuple items | set items | map entries =>
      obtain rfl := List.isEmpty_iff.1 hc
      exact fun _ h => absurd h List.not_mem_nil

theorem Value.all_true (v : Value) : v.All fun _ => True := by
  cases v <;> trivial

theorem Cell.all_true (c : Cell) : c.All fun _ => True := by
  cases c with
  | mark => trivial
  | list items | tuple items => exact fun v _ => v.all_true
  | set items => exact fun _ _ => trivial
  | map entries => exact fun e _ => ⟨trivial, e.2.all_true⟩

namespace Graph

def All (P : Label → Prop) (g : Graph) : Prop := ∀ id, (g.cell id).All P

variable {g : Graph} {v : Value}

theorem all_empty : Graph.empty.All P := by
  intro id
  rw [cell_of_size_le (Nat.zero_le id)]
  trivial

theorem All.of_cell (hg : g.All P) {id : Nat} {c : Cell} (hcell : g.cell id = c) : c.All P :=
  hcell ▸ hg id

theorem All.entries (hg : g.All P) {es : List (Label × Value)} (hes : g.entries? v = some es) :
    ∀ e ∈ es, P e.1 ∧ e.2.All P := by
  obtain ⟨id, rfl, hcell⟩ := entries?_eq_some_iff.1 hes
  exact hg.of_cell hcell

theorem All.alloc (hg : g.All P) {c : Cell} (hc : c.All P) : (g.alloc c).2.All P := by
  intro id
  rcases Nat.lt_trichotomy id g.cells.size with hid | rfl | hid
  · rw [cell_alloc_of_lt g c id hid]
    exact hg id
  · have hself : (g.alloc c).2.cell g.cells.size = c := cell_alloc_self g c
    rw [hself]
    exact hc
  · rw [cell_of_size_le (by rw [size_alloc]; exact hid)]
    trivial

theorem All.set (hg : g.All P) (id : Nat) {c : Cell} (hc : c.All P) : (g.set id c).All P := by
  intro other
  by_cases hid : id = other
  · subst hid
    by_cases hlt : id < g.cells.size
    · rw [cell_set_self g id c hlt]
      exact hc
    · rw [cell_of_size_le (by rw [size_set]; exact Nat.le_of_not_lt hlt)]
      trivial
  · rw [cell_set_of_ne g id other c hid]
    exact hg other

end Graph
end KubeAtlas
