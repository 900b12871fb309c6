import KubeAtlas.Proofs.Datum
import KubeAtlas.Proofs.Graph.Closed
import Mathlib.Data.List.Forall2
import Mathlib.Logic.Relator
/-!
# Copies of graphs

A document that is written and loaded again stands in other cells than before, but what was shared
is shared still. So a copy is told by a relation between the cells of two graphs that relates each
cell to at most one other, in both directions, and whose related cells hold the same, up to the
relation. The one change that is let through is that of a tuple to a list, since tuples are written
as lists. An empty tuple is left out: it is written without an identity and does not come from a
document. So are tuples as keys, since a list cannot be a key.
-/

namespace KubeAtlas

mutual

/-- The tree with lists in the place of tuples. -/
def Datum.listed : Datum → Datum
  | .list items | .tuple items => .list (Datum.listedItems items)
  | .map entries => .map (Datum.listedEntries entries)
  | .scalar s => .scalar s
  | .date d => .date d
  | .moment m => .moment m
  | .set items => .set items
  | .cycle up => .cycle up

def Datum.listedItems : List Datum → List Datum
  | [] => []
  | d :: rest => d.listed :: Datum.listedItems rest

def Datum.listedEntries : List (Datum × Datum) → List (Datum × Datum)
  | [] => []
  | (k, d) :: rest => (k, d.listed) :: Datum.listedEntries rest

end

theorem Datum.listedItems_eq_map (items : List Datum) :
    Datum.listedItems items = items.map Datum.listed := by
  induction items with
  | nil => rfl
  | cons d rest ih => rw [Datum.listedItems, ih, List.map_cons]

theorem Datum.listedEntries_eq_map (entries : List (Datum × Datum)) :
    Datum.listedEntries entries = entries.map fun e => (e.1, e.2.listed) := by
  induction entries with
  | nil => rfl
  | cons e rest ih => rw [Datum.listedEntries, ih, List.map_cons]

inductive Label.Copied (R : Nat → Nat → Prop) : Label → Label → Prop
  | scalar (s : Scalar) : Copied R (.scalar s) (.scalar s)
  | date {a b : Nat} (d : Date) (hab : R a b) : Copied R (.date a d) (.date b d)
  | moment {a b : Nat} (m : Moment) (hab : R a b) : Copied R (.moment a m) (.moment b m)

inductive Value.Copied (R : Nat → Nat → Prop) : Value → Value → Prop
  | leaf {l l' : Label} (hl : l.Copied R l') : Copied R (.leaf l) (.leaf l')
  | ref {a b : Nat} (hab : R a b) : Copied R (.ref a) (.ref b)

def EntryCopied (R : Nat → Nat → Prop) (e e' : Label × Value) : Prop :=
  e.1.Copied R e'.1 ∧ e.2.Copied R e'.2

inductive Cell.Copied (R : Nat → Nat → Prop) : Cell → Cell → Prop
  | mark : Copied R .mark .mark
  | list {items items' : List Value} (h : List.Forall₂ (Value.Copied R) items items') :
      Copied R (.list items) (.list items')
  | tuple {items items' : List Value} (hne : items ≠ [])
      (h : List.Forall₂ (Value.Copied R) items items') : Copied R (.tuple items) (.list items')
  | set {items items' : List Label} (h : List.Forall₂ (Label.Copied R) items items') :
      Copied R (.set items) (.set items')
  | map {entries entries' : List (Label × Value)}
      (h : List.Forall₂ (EntryCopied R) entries entries') : Copied R (.map entries) (.map entries')

variable {R S : Nat → Nat → Prop}

namespace Label.Copied

variable {l l' : Label}

theorem key_eq (hl : l.Copied R l') : l'.key = l.key := by cases hl <;> rfl

theorem datum_eq (hl : l.Copied R l') : l'.datum = l.datum := by cases hl <;> rfl

theorem listed_eq (hl : l.Copied R l') : l'.datum = l.datum.listed := by cases hl <;> rfl

theorem isTruthy_eq (hl : l.Copied R l') : l'.isTruthy = l.isTruthy := by cases hl <;> rfl

theorem mono (hRS : ∀ a ∈ l.ids, ∀ b, R a b → S a b) (hl : l.Copied R l') : l.Copied S l' := by
  cases hl with
  | scalar s => exact .scalar s
  | date d hab => exact .date d (hRS _ (List.mem_singleton_self _) _ hab)
  | moment m hab => exact .moment m (hRS _ (List.mem_singleton_self _) _ hab)

theorem str {name : String} : (Label.str name).Copied R l' ↔ l' = .str name :=
  ⟨fun hl => by cases hl; rfl, fun hl => by rw [hl]; exact .scalar _⟩

end Label.Copied

namespace Value.Copied

variable {v w : Value}

theorem key?_eq (hv : v.Copied R w) : w.key? = v.key? := by
  cases hv with
  | leaf hl => exact congrArg some hl.key_eq
  | ref hab => rfl

theorem mono (hRS : ∀ a ∈ v.ids, ∀ b, R a b → S a b) (hv : v.Copied R w) : v.Copied S w := by
  cases hv with
  | leaf hl => exact .leaf (hl.mono hRS)
  | ref hab => exact .ref (hRS _ (List.mem_singleton_self _) _ hab)

end Value.Copied

theorem EntryCopied.mono {e e' : Label × Value}
    (hRS : ∀ a, a ∈ e.1.ids ∨ a ∈ e.2.ids → ∀ b, R a b → S a b) (he : EntryCopied R e e') :
    EntryCopied S e e' :=
  ⟨he.1.mono fun a ha => hRS a (.inl ha), he.2.mono fun a ha => hRS a (.inr ha)⟩

theorem forall₂_mono {α β : Type} {p q : α → β → Prop} {xs : List α} {ys : List β}
    (hpq : ∀ x ∈ xs, ∀ y, p x y → q x y) (h : List.Forall₂ p xs ys) : List.Forall₂ q xs ys := by
  induction h with
  | nil => exact .nil
  | cons hxy _ ih =>
      obtain ⟨hx, hrest⟩ := List.forall_mem_cons.1 hpq
      exact .cons (hx _ hxy) (ih hrest)

theorem Cell.Copied.mono {c c' : Cell} (hRS : ∀ a ∈ c.ids, ∀ b, R a b → S a b)
    (hc : c.Copied R c') : c.Copied S c' := by
  have hvalue : ∀ {items : List Value}, (∀ a ∈ items.flatMap Value.ids, ∀ b, R a b → S a b) →
      ∀ v ∈ items, ∀ w, v.Copied R w → v.Copied S w := fun hids v hv w =>
    Value.Copied.mono fun a ha => hids a (List.mem_flatMap.2 ⟨v, hv, ha⟩)
  cases hc with
  | mark => exact .mark
  | list h => exact .list (forall₂_mono (hvalue hRS) h)
  | tuple hne h => exact .tuple hne (forall₂_mono (hvalue hRS) h)
  | set h =>
      exact .set (forall₂_mono (fun l hl _ =>
        Label.Copied.mono fun a ha => hRS a (List.mem_flatMap.2 ⟨l, hl, ha⟩)) h)
  | map h =>
      exact .map (forall₂_mono (fun e he _ =>
        EntryCopied.mono fun a ha => hRS a (Cell.mem_ids_of_mem_map he ha)) h)

theorem Cell.Copied.isEmpty_eq {c c' : Cell} (hc : c.Copied R c') : c'.isEmpty = c.isEmpty := by
  cases hc with
  | mark => rfl
  | list h => cases h <;> rfl
  | tuple hne h => cases h <;> rfl
  | set h => cases h <;> rfl
  | map h => cases h <;> rfl

namespace Graph

/-- Related cells are copies of each other. -/
structure Copied (R : Nat → Nat → Prop) (g h : Graph) : Prop where
  unique : Relator.BiUnique R
  within : ∀ a b, R a b → a < g.cells.size ∧ b < h.cells.size
  cells : ∀ a b, R a b → (g.cell a).Copied R (h.cell b)

variable {g h : Graph} {v w : Value} {a b : Nat}

theorem Copied.isTruthy_eq (hcopy : Copied R g h) (hv : v.Copied R w) :
    h.isTruthy w = g.isTruthy v := by
  cases hv with
  | leaf hl => exact hl.isTruthy_eq
  | ref hab => rw [isTruthy, isTruthy, (hcopy.cells _ _ hab).isEmpty_eq]

theorem Copied.entries (hcopy : Copied R g h) (hv : v.Copied R w) {es : List (Label × Value)}
    (hes : g.entries? v = some es) :
    ∃ es', h.entries? w = some es' ∧ List.Forall₂ (EntryCopied R) es es' := by
  obtain ⟨a, rfl, hcell⟩ := entries?_eq_some_iff.1 hes
  obtain ⟨b, rfl, hab⟩ : ∃ b, w = .ref b ∧ R a b := by
    cases hv with
    | ref hab => exact ⟨_, rfl, hab⟩
  have hcells := hcopy.cells a b hab
  rw [hcell] at hcells
  cases hcopied : h.cell b with
  | map es' =>
      rw [hcopied] at hcells
      cases hcells with
      | map hall => exact ⟨es', entries?_eq_some_iff.2 ⟨b, rfl, hcopied⟩, hall⟩
  | _ => rw [hcopied] at hcells; cases hcells

theorem Copied.items (hcopy : Copied R g h) (hv : v.Copied R w) {items : List Value}
    (hitems : g.items? v = some items) :
    ∃ items', h.items? w = some items' ∧ List.Forall₂ (Value.Copied R) items items' := by
  obtain ⟨a, rfl, hcell⟩ := items?_eq_some_iff.1 hitems
  obtain ⟨b, rfl, hab⟩ : ∃ b, w = .ref b ∧ R a b := by
    cases hv with
    | ref hab => exact ⟨_, rfl, hab⟩
  have hcells := hcopy.cells a b hab
  rw [hcell] at hcells
  cases hcopied : h.cell b with
  | list items' =>
      rw [hcopied] at hcells
      cases hcells with
      | list hall => exact ⟨items', items?_eq_some_iff.2 ⟨b, rfl, hcopied⟩, hall⟩
  | _ => rw [hcopied] at hcells; cases hcells

/-! ### Taking cells on both sides -/

def withPair (R : Nat → Nat → Prop) (a b : Nat) : Nat → Nat → Prop :=
  fun x y => R x y ∨ x = a ∧ y = b

theorem biUnique_withPair (hR : Relator.BiUnique R) (ha : ∀ y, ¬ R a y) (hb : ∀ x, ¬ R x b) :
    Relator.BiUnique (withPair R a b) := by
  constructor
  · rintro x z y (hx | ⟨rfl, rfl⟩) (hz | ⟨rfl, hy⟩)
    · exact hR.1 hx hz
    · exact absurd (hy ▸ hx) (hb x)
    · exact absurd hz (hb z)
    · rfl
  · rintro x y z (hy | ⟨rfl, rfl⟩) (hz | ⟨hx, rfl⟩)
    · exact hR.2 hy hz
    · exact absurd (hx ▸ hy) (ha y)
    · exact absurd hz (ha z)
    · rfl

theorem Copied.mono_withPair {c c' : Cell} (hc : c.Copied R c') :
    c.Copied (withPair R a b) c' :=
  hc.mono fun _ _ _ => Or.inl

/-- A cell that holds what another one does, up to the relation, is a copy of it. -/
theorem Copied.alloc (hcopy : Copied R g h) {c c' : Cell} (hc : c.Copied R c') :
    Copied (withPair R g.cells.size h.cells.size) (g.alloc c).2 (h.alloc c').2 where
  unique := biUnique_withPair hcopy.unique
    (fun y hy => Nat.lt_irrefl _ (hcopy.within _ _ hy).1)
    (fun x hx => Nat.lt_irrefl _ (hcopy.within _ _ hx).2)
  within a b hab := by
    rw [size_alloc, size_alloc]
    rcases hab with hab | ⟨rfl, rfl⟩
    · obtain ⟨ha, hb⟩ := hcopy.within a b hab
      exact ⟨Nat.lt_succ_of_lt ha, Nat.lt_succ_of_lt hb⟩
    · exact ⟨Nat.lt_succ_self _, Nat.lt_succ_self _⟩
  cells a b hab := by
    rcases hab with hab | ⟨rfl, rfl⟩
    · obtain ⟨ha, hb⟩ := hcopy.within a b hab
      rw [cell_alloc_of_lt g c a ha, cell_alloc_of_lt h c' b hb]
      exact mono_withPair (hcopy.cells a b hab)
    · have hself : (g.alloc c).2.cell g.cells.size = c := cell_alloc_self g c
      have hself' : (h.alloc c').2.cell h.cells.size = c' := cell_alloc_self h c'
      rw [hself, hself']
      exact mono_withPair hc

/-! ### Trees -/

theorem Copied.findIdx?_eq (hR : Relator.BiUnique R) {above above' : List Nat}
    (habove : List.Forall₂ R above above') (hab : R a b) :
    above'.findIdx? (· == b) = above.findIdx? (· == a) := by
  induction habove with
  | nil => rfl
  | @cons x y xs ys hxy _ ih =>
      rw [List.findIdx?_cons, List.findIdx?_cons, ih, beq_eq_decide, beq_eq_decide,
        decide_eq_decide.2 (Relator.rel_eq hR hxy hab).symm]

theorem Copied.mem_iff (hR : Relator.BiUnique R) {above above' : List Nat}
    (habove : List.Forall₂ R above above') (hab : R a b) : b ∈ above' ↔ a ∈ above := by
  induction habove with
  | nil => simp
  | @cons x y xs ys hxy _ ih =>
      rw [List.mem_cons, List.mem_cons, ih]
      exact or_congr_left (Relator.rel_eq hR hab hxy).symm

theorem unfoldCell_copied {depth : Nat} {above above' : List Nat}
    (hvalue : ∀ {v w : Value}, v.Copied R w →
      h.unfoldBelow depth above' w = (g.unfoldBelow depth above v).listed)
    {c c' : Cell} (hc : c.Copied R c') :
    h.unfoldCell depth above' c' = (g.unfoldCell depth above c).listed := by
  have hitems : ∀ {items items' : List Value}, List.Forall₂ (Value.Copied R) items items' →
      items'.map (h.unfoldBelow depth above') =
        (items.map (g.unfoldBelow depth above)).map Datum.listed := by
    intro items items' hall
    induction hall with
    | nil => rfl
    | cons hv _ ih => rw [List.map_cons, List.map_cons, List.map_cons, ih, hvalue hv]
  cases hc with
  | mark => rfl
  | list hall =>
      rw [unfoldCell, unfoldCell, Datum.listed, Datum.listedItems_eq_map, hitems hall]
  | tuple hne hall =>
      rw [unfoldCell, unfoldCell, Datum.listed, Datum.listedItems_eq_map, hitems hall]
  | set hall =>
      rw [unfoldCell, unfoldCell, Datum.listed, Label.data_eq_map, Label.data_eq_map]
      congr 1
      induction hall with
      | nil => rfl
      | cons hl _ ih => rw [List.map_cons, List.map_cons, ih, hl.datum_eq]
  | map hall =>
      rw [unfoldCell, unfoldCell, Datum.listed, Datum.listedEntries_eq_map, List.map_map]
      congr 1
      induction hall with
      | nil => rfl
      | cons he _ ih =>
          rw [List.map_cons, List.map_cons, ih, he.1.datum_eq, hvalue he.2]
          rfl

theorem Copied.unfoldBelow_eq (hcopy : Copied R g h) (depth : Nat) {above above' : List Nat}
    (habove : List.Forall₂ R above above') (hv : v.Copied R w) :
    h.unfoldBelow depth above' w = (g.unfoldBelow depth above v).listed := by
  induction depth generalizing above above' v w with
  | zero =>
      cases hv with
      | leaf hl => rw [unfoldBelow, unfoldBelow, hl.listed_eq]
      | ref hab => rw [unfoldBelow, unfoldBelow]; rfl
  | succ depth ih =>
      cases hv with
      | leaf hl => rw [unfoldBelow, unfoldBelow, hl.listed_eq]
      | @ref a b hab =>
          -- the walks come back to a cell together, and as far up
          have hfind := findIdx?_eq hcopy.unique habove hab
          by_cases ha : a ∈ above
          · have hb := (mem_iff hcopy.unique habove hab).2 ha
            rw [unfoldBelow_of_mem g depth ha, unfoldBelow_of_mem h depth hb, hfind]
            rfl
          · have hb := mt (mem_iff hcopy.unique habove hab).1 ha
            rw [unfoldBelow_of_notMem g depth ha, unfoldBelow_of_notMem h depth hb]
            exact unfoldCell_copied (ih (.cons hab habove)) (hcopy.cells a b hab)

/-- A copy shows the same tree, with lists in the place of tuples. -/
theorem Copied.unfold_eq (hcopy : Copied R g h) (hv : v.Copied R w) :
    h.unfold w = (g.unfold v).listed := by
  have hbound : ∀ k : Graph, k.cells.size + 1 ≤ max (g.cells.size + 1) (k.cells.size + 1) :=
    fun k => Nat.le_max_right _ _
  rw [← unfoldBelow_eq_unfold (Nat.le_max_left (g.cells.size + 1) (h.cells.size + 1)) v,
    ← unfoldBelow_eq_unfold (hbound h) w]
  exact hcopy.unfoldBelow_eq _ .nil hv

end Graph
end KubeAtlas
