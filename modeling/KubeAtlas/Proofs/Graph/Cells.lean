import KubeAtlas.Graph.Basic
/-!
# Cells that stay

A cell is never given up, and taking a new one leaves the others as they are. So what was a mapping
before remains one in every graph that extends the first, and a value that is a mapping can be
passed along while the graph grows.
-/

namespace KubeAtlas.Graph

variable {g h k : Graph} {v : Value} {id : Nat}

@[simp] theorem size_alloc (g : Graph) (c : Cell) :
    (g.alloc c).2.cells.size = g.cells.size + 1 := by
  simp [alloc]

@[simp] theorem size_set (g : Graph) (id : Nat) (c : Cell) :
    (g.set id c).cells.size = g.cells.size := by
  simp [set]

theorem cell_of_size_le (hid : g.cells.size ≤ id) : g.cell id = .mark := by
  rw [cell, Array.getD_eq_getD_getElem?, Array.getElem?_eq_none hid]
  rfl

theorem lt_size_of_cell {c : Cell} (hcell : g.cell id = c) (hc : c ≠ .mark) : id < g.cells.size :=
  Nat.lt_of_not_le fun hid => hc (hcell.symm.trans (cell_of_size_le hid))

theorem entries?_eq_some_iff {es : List (Label × Value)} :
    g.entries? v = some es ↔ ∃ id, v = .ref id ∧ g.cell id = .map es := by
  cases v with
  | leaf l => simp [entries?, cell?]
  | ref id =>
      rw [entries?, cell?]
      cases hcell : g.cell id <;> simp [hcell]

theorem items?_eq_some_iff {items : List Value} :
    g.items? v = some items ↔ ∃ id, v = .ref id ∧ g.cell id = .list items := by
  cases v with
  | leaf l => simp [items?, cell?]
  | ref id =>
      rw [items?, cell?]
      cases hcell : g.cell id <;> simp [hcell]

def IsMapping (g : Graph) (v : Value) : Prop := ∃ id es, v = .ref id ∧ g.cell id = .map es

theorem isMapping_of_isSome (hv : (g.entries? v).isSome) : g.IsMapping v := by
  obtain ⟨es, hes⟩ := Option.isSome_iff_exists.1 hv
  obtain ⟨id, rfl, hcell⟩ := entries?_eq_some_iff.1 hes
  exact ⟨id, es, rfl, hcell⟩

theorem eq_of_cells (hsize : g.cells.size = h.cells.size)
    (hcells : ∀ id, g.cell id = h.cell id) : g = h := by
  obtain ⟨cells⟩ := g
  obtain ⟨others⟩ := h
  apply congrArg Graph.mk
  apply Array.ext hsize
  intro i hi hi'
  have hcell := hcells i
  simp only [cell, Array.getD_eq_getD_getElem?, Array.getElem?_eq_getElem hi,
    Array.getElem?_eq_getElem hi', Option.getD_some] at hcell
  exact hcell

/-! ### Growing -/

/-- The cells of a graph stand in another one, with the same contents. -/
def Extends (h g : Graph) : Prop :=
  g.cells.size ≤ h.cells.size ∧ ∀ id < g.cells.size, h.cell id = g.cell id

theorem Extends.refl (g : Graph) : g.Extends g := ⟨Nat.le_refl _, fun _ _ => rfl⟩

theorem Extends.trans (hk : k.Extends h) (hh : h.Extends g) : k.Extends g :=
  ⟨Nat.le_trans hh.1 hk.1,
    fun id hid => (hk.2 id (Nat.lt_of_lt_of_le hid hh.1)).trans (hh.2 id hid)⟩

theorem extends_alloc (g : Graph) (c : Cell) : (g.alloc c).2.Extends g :=
  ⟨by simp, fun id hid => cell_alloc_of_lt g c id hid⟩

theorem IsMapping.extend (hv : g.IsMapping v) (hext : h.Extends g) : h.IsMapping v := by
  obtain ⟨id, es, rfl, hcell⟩ := hv
  exact ⟨id, es, rfl, (hext.2 id (lt_size_of_cell hcell (by simp))).trans hcell⟩

theorem Extends.entries? (hext : h.Extends g) {es : List (Label × Value)}
    (hes : g.entries? v = some es) : h.entries? v = some es := by
  obtain ⟨id, rfl, hcell⟩ := entries?_eq_some_iff.1 hes
  exact entries?_eq_some_iff.2
    ⟨id, rfl, (hext.2 id (lt_size_of_cell hcell (by simp))).trans hcell⟩

theorem Extends.items? (hext : h.Extends g) {items : List Value}
    (hitems : g.items? v = some items) : h.items? v = some items := by
  obtain ⟨id, rfl, hcell⟩ := items?_eq_some_iff.1 hitems
  exact items?_eq_some_iff.2
    ⟨id, rfl, (hext.2 id (lt_size_of_cell hcell (by simp))).trans hcell⟩

/-! ### Replacing -/

theorem set_cell_self (g : Graph) (id : Nat) : g.set id (g.cell id) = g := by
  rw [set, cell]
  congr 1
  refine Array.ext (by simp) fun i hi _ => ?_
  rw [Array.getElem_setIfInBounds]
  split
  · next hid =>
      subst hid
      rw [Array.getD_eq_getD_getElem?, Array.getElem?_eq_getElem (by simpa using hi),
        Option.getD_some]
  · rfl

theorem IsMapping.set (hv : g.IsMapping v) (id : Nat) (es : List (Label × Value)) :
    (g.set id (.map es)).IsMapping v := by
  obtain ⟨other, fs, rfl, hcell⟩ := hv
  by_cases hid : id = other
  · subst hid
    exact ⟨id, es, rfl, cell_set_self g id _ (lt_size_of_cell hcell (by simp))⟩
  · exact ⟨other, fs, rfl, (cell_set_of_ne g id other _ hid).trans hcell⟩

end KubeAtlas.Graph
