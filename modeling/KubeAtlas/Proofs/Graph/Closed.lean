import KubeAtlas.Proofs.Graph.Reach
import KubeAtlas.Proofs.Table
/-!
# Graphs without loose ends

A graph is closed if whatever its cells refer to is one of its cells. Then nothing that a value
leads to changes when cells are added, so that the value shows the same tree before and after. The
bound on the depth of a tree does change, but it is never reached: a way down that is longer than
the graph is large comes to a cell twice, and is cut there.
-/

namespace KubeAtlas

mutual

def Label.ids : Label → List Nat
  | .scalar _ => []
  | .date id _ | .moment id _ => [id]
  | .tuple id items => id :: Label.idsOf items

def Label.idsOf : List Label → List Nat
  | [] => []
  | l :: rest => l.ids ++ Label.idsOf rest

end

def Value.ids : Value → List Nat
  | leaf l => l.ids
  | ref id => [id]

def Cell.ids : Cell → List Nat
  | mark => []
  | list items | tuple items => items.flatMap Value.ids
  | set items => items.flatMap Label.ids
  | map entries => entries.flatMap fun e => e.1.ids ++ e.2.ids

def Cell.keys : Cell → List Key
  | map entries => Table.keys entries
  | mark | list _ | tuple _ | set _ => []

theorem Cell.mem_ids_of_mem_values {c : Cell} {id : Nat} (hid : .ref id ∈ c.values) :
    id ∈ c.ids := by
  cases c with
  | list items => exact List.mem_flatMap.2 ⟨_, hid, List.mem_singleton_self id⟩
  | tuple items => exact List.mem_flatMap.2 ⟨_, hid, List.mem_singleton_self id⟩
  | map entries =>
      obtain ⟨e, he, hsame⟩ := List.mem_map.1 hid
      refine List.mem_flatMap.2 ⟨e, he, List.mem_append_right _ ?_⟩
      rw [hsame]
      exact List.mem_singleton_self id
  | mark => cases hid
  | set items => cases hid

theorem Cell.mem_ids_of_mem_map {entries : List (Label × Value)} {e : Label × Value}
    (he : e ∈ entries) {id : Nat} (hid : id ∈ e.1.ids ∨ id ∈ e.2.ids) :
    id ∈ (Cell.map entries).ids :=
  List.mem_flatMap.2 ⟨e, he, List.mem_append.2 hid⟩

namespace Graph

variable {g h : Graph} {v : Value} {above : List Nat} {a b c : Nat}

/-- Whatever a cell refers to is a cell. -/
def Closed (g : Graph) : Prop := ∀ a, ∀ b ∈ (g.cell a).ids, b < g.cells.size

theorem closed_iff :
    g.Closed ↔ ∀ a < g.cells.size, ∀ b ∈ (g.cell a).ids, b < g.cells.size := by
  refine ⟨fun hg a _ => hg a, fun hall a b hb => ?_⟩
  by_cases ha : a < g.cells.size
  · exact hall a ha b hb
  · rw [cell_of_size_le (Nat.le_of_not_lt ha)] at hb
    cases hb

theorem Closed.alloc (hg : g.Closed) {k : Cell} (hk : ∀ b ∈ k.ids, b < g.cells.size) :
    (g.alloc k).2.Closed := by
  intro a b hb
  rw [size_alloc]
  rcases Nat.lt_trichotomy a g.cells.size with ha | rfl | ha
  · rw [cell_alloc_of_lt g k a ha] at hb
    exact Nat.lt_succ_of_lt (hg a b hb)
  · have hself : (g.alloc k).2.cell g.cells.size = k := cell_alloc_self g k
    rw [hself] at hb
    exact Nat.lt_succ_of_lt (hk b hb)
  · rw [cell_of_size_le (by rw [size_alloc]; exact ha)] at hb
    cases hb

theorem Closed.set (hg : g.Closed) (id : Nat) {k : Cell} (hk : ∀ b ∈ k.ids, b < g.cells.size) :
    (g.set id k).Closed := by
  intro a b hb
  rw [size_set]
  by_cases hid : id = a
  · subst hid
    by_cases hlt : id < g.cells.size
    · rw [cell_set_self g id k hlt] at hb
      exact hk b hb
    · rw [cell_of_size_le (by rw [size_set]; exact Nat.le_of_not_lt hlt)] at hb
      cases hb
  · rw [cell_set_of_ne g id a k hid] at hb
    exact hg a b hb

theorem Closed.entries (hg : g.Closed) {es : List (Label × Value)}
    (hes : g.entries? v = some es) {e : Label × Value} (he : e ∈ es) :
    (∀ a ∈ e.1.ids, a < g.cells.size) ∧ ∀ a ∈ e.2.ids, a < g.cells.size := by
  obtain ⟨id, rfl, hcell⟩ := entries?_eq_some_iff.1 hes
  have hall := hg id
  rw [hcell] at hall
  exact ⟨fun a ha => hall a (Cell.mem_ids_of_mem_map he (.inl ha)),
    fun a ha => hall a (Cell.mem_ids_of_mem_map he (.inr ha))⟩

theorem Closed.items (hg : g.Closed) {items : List Value} (hitems : g.items? v = some items)
    {w : Value} (hw : w ∈ items) : ∀ a ∈ w.ids, a < g.cells.size := by
  obtain ⟨id, rfl, hcell⟩ := items?_eq_some_iff.1 hitems
  intro a ha
  refine hg id a ?_
  rw [hcell]
  exact List.mem_flatMap.2 ⟨w, hw, ha⟩

/-- A closed graph whose mappings have each key once. -/
structure WellFormed (g : Graph) : Prop where
  closed : g.Closed
  distinct : ∀ a entries, g.cell a = .map entries → (Table.keys entries : List Key).Nodup

theorem wellFormed_iff :
    g.WellFormed ↔ (∀ a < g.cells.size, ∀ b ∈ (g.cell a).ids, b < g.cells.size) ∧
      ∀ a < g.cells.size, (g.cell a).keys.Nodup := by
  constructor
  · intro hg
    refine ⟨closed_iff.1 hg.closed, fun a _ => ?_⟩
    cases hcell : g.cell a with
    | map entries => exact hg.distinct a entries hcell
    | mark | list _ | tuple _ | set _ => exact List.nodup_nil
  · rintro ⟨hclosed, hkeys⟩
    refine ⟨closed_iff.2 hclosed, fun a entries hcell => ?_⟩
    have hnodup := hkeys a (lt_size_of_cell hcell (by simp))
    rwa [hcell] at hnodup

instance : DecidablePred WellFormed := fun _ => decidable_of_iff _ wellFormed_iff.symm

theorem WellFormed.empty : Graph.empty.WellFormed where
  closed a b hb := by
    rw [cell_of_size_le (Nat.zero_le a)] at hb
    cases hb
  distinct a entries hcell := by
    rw [cell_of_size_le (Nat.zero_le a)] at hcell
    cases hcell

theorem WellFormed.alloc (hg : g.WellFormed) {k : Cell} (hk : ∀ b ∈ k.ids, b < g.cells.size)
    (hdistinct : ∀ entries, k = .map entries → (Table.keys entries : List Key).Nodup) :
    (g.alloc k).2.WellFormed where
  closed := hg.closed.alloc hk
  distinct a entries hcell := by
    rcases Nat.lt_trichotomy a g.cells.size with ha | rfl | ha
    · rw [cell_alloc_of_lt g k a ha] at hcell
      exact hg.distinct a entries hcell
    · exact hdistinct entries ((cell_alloc_self g k).symm.trans hcell)
    · rw [cell_of_size_le (by rw [size_alloc]; exact ha)] at hcell
      cases hcell

theorem WellFormed.set (hg : g.WellFormed) (id : Nat) {k : Cell}
    (hk : ∀ b ∈ k.ids, b < g.cells.size)
    (hdistinct : ∀ entries, k = .map entries → (Table.keys entries : List Key).Nodup) :
    (g.set id k).WellFormed where
  closed := hg.closed.set id hk
  distinct a entries hcell := by
    by_cases hid : id = a
    · subst hid
      have hlt : id < g.cells.size := by
        rw [← size_set g id k]
        exact lt_size_of_cell hcell (by simp)
      rw [cell_set_self g id k hlt] at hcell
      exact hdistinct entries hcell
    · rw [cell_set_of_ne g id a k hid] at hcell
      exact hg.distinct a entries hcell

theorem Leads.lt_size (hg : g.Closed) (hac : g.Leads above a c) (ha : a < g.cells.size) :
    c < g.cells.size := by
  induction hac with
  | here _ => exact ha
  | down _ hb _ ih => exact ih (hg _ _ (Cell.mem_ids_of_mem_values hb))

/-! ### The depth of a tree -/

/-- One level more shows nothing more, if there are as many levels as cells. -/
theorem unfoldBelow_succ (depth : Nat) (hnodup : above.Nodup)
    (hbound : ∀ x ∈ above, x < g.cells.size) (hdepth : g.cells.size + 1 ≤ depth + above.length)
    (v : Value) : g.unfoldBelow (depth + 1) above v = g.unfoldBelow depth above v := by
  induction depth generalizing above v with
  | zero =>
      have hle := length_le_size hnodup hbound
      omega
  | succ depth ih =>
      cases v with
      | leaf l => rw [unfoldBelow, unfoldBelow]
      | ref a =>
          by_cases ha : a ∈ above
          · rw [unfoldBelow_of_mem g _ ha, unfoldBelow_of_mem g _ ha]
          · rw [unfoldBelow_of_notMem g _ ha, unfoldBelow_of_notMem g _ ha]
            refine unfoldCell_congr fun v hv => ih (List.nodup_cons.2 ⟨ha, hnodup⟩) ?_ ?_ v
            · have hcell : g.cell a ≠ .mark := by
                intro hmark
                rw [hmark] at hv
                cases hv
              exact List.forall_mem_cons.2 ⟨lt_size_of_cell rfl hcell, hbound⟩
            · rw [List.length_cons]
              omega

theorem unfoldBelow_eq_unfold {depth : Nat} (hdepth : g.cells.size + 1 ≤ depth) (v : Value) :
    g.unfoldBelow depth [] v = g.unfold v := by
  induction hdepth with
  | refl => rfl
  | step hle ih =>
      rw [← ih]
      exact unfoldBelow_succ _ List.nodup_nil (by simp) (by simpa using hle) v

theorem unfold_of_extends (hg : g.Closed) (hext : h.Extends g)
    (hv : ∀ a ∈ v.ids, a < g.cells.size) : h.unfold v = g.unfold v := by
  have hsize : g.cells.size + 1 ≤ h.cells.size + 1 := Nat.succ_le_succ hext.1
  rw [unfold, ← unfoldBelow_eq_unfold hsize v]
  refine unfoldBelow_congr _ _ _ ?_
  rintro a c rfl hac -
  exact hext.2 c (hac.lt_size hg (hv a (List.mem_singleton_self a)))

theorem isTruthy_of_extends (hext : h.Extends g) (hv : ∀ a ∈ v.ids, a < g.cells.size) :
    h.isTruthy v = g.isTruthy v := by
  cases v with
  | leaf l => rfl
  | ref a => rw [isTruthy, isTruthy, hext.2 a (hv a (List.mem_singleton_self a))]

theorem entries?_of_extends (hext : h.Extends g) (hv : ∀ a ∈ v.ids, a < g.cells.size) :
    h.entries? v = g.entries? v := by
  cases v with
  | leaf l => rfl
  | ref a => rw [entries?, entries?, cell?, cell?, hext.2 a (hv a (List.mem_singleton_self a))]

end Graph
end KubeAtlas
