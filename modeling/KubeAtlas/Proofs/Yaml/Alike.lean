import KubeAtlas.Proofs.Graph.Copy
import KubeAtlas.Proofs.Yaml.Depth
/-!
# Copies are written alike

A value and its copy have the same document. The two walks through them go side by side: where one
comes to a cell, the other comes to the copy of it, for the first time or again as the first one
does. So the names that cells are given are the same, and so are the places where they are used.
-/

namespace KubeAtlas

theorem Cell.Copied.isUnit_eq {R : Nat → Nat → Prop} {c c' : Cell} (hc : c.Copied R c') :
    c.isUnit = false ∧ c'.isUnit = false := by
  cases hc with
  | tuple hne h =>
      rename_i items items'
      cases items with
      | nil => exact absurd rfl hne
      | cons v rest => exact ⟨rfl, rfl⟩
  | _ => exact ⟨rfl, rfl⟩

theorem getD_mark {marks : Array Bool} {a x : Nat} :
    (marks.setIfInBounds a true).getD x true = if x = a then true else marks.getD x true := by
  rw [Array.getD_eq_getD_getElem?, Array.getElem?_setIfInBounds, Array.getD_eq_getD_getElem?]
  by_cases hx : x = a
  · subst hx
    rw [if_pos rfl, if_pos rfl]
    split <;> rfl
  · rw [if_neg (Ne.symm hx), if_neg hx]

namespace Yaml

variable {R : Nat → Nat → Prop} {g h : Graph} {a b : Nat} {depth : Nat}

/-! ### The survey -/

namespace Survey

variable {s t s' : Survey}

structure Copied (R : Nat → Nat → Prop) (s t : Survey) : Prop where
  reached : ∀ a b, R a b → t.reached.getD b true = s.reached.getD a true
  named : List.Forall₂ R s.named t.named

theorem Copied.reach (hR : Relator.BiUnique R) (hst : Copied R s t) (hab : R a b) :
    (t.reach b).1 = (s.reach a).1 ∧ Copied R (s.reach a).2 (t.reach b).2 := by
  rw [Survey.reach, Survey.reach, hst.reached a b hab]
  cases hfirst : s.reached.getD a true with
  | true =>
      refine ⟨rfl, ?_⟩
      have hnamed : t.named.contains b = s.named.contains a := by
        rw [Bool.eq_iff_iff, List.contains_iff_mem, List.contains_iff_mem]
        exact Graph.Copied.mem_iff hR hst.named hab
      rw [if_pos rfl, if_pos rfl, hnamed]
      split
      · exact hst
      · exact ⟨hst.reached, .cons hab hst.named⟩
  | false =>
      refine ⟨rfl, fun x y hxy => ?_, hst.named⟩
      show (t.reached.setIfInBounds b true).getD y true =
        (s.reached.setIfInBounds a true).getD x true
      rw [getD_mark, getD_mark, hst.reached x y hxy]
      simp only [Relator.rel_eq hR hxy hab]

/-- A step and one that goes by its side: from a survey and its copy, with arguments that
correspond, both come to a survey and its copy. -/
def Alongside {α : Type} (R : Nat → Nat → Prop) (P : α → α → Prop)
    (f f' : Survey → α → Except Failure Survey) : Prop :=
  ∀ s t s' x y, Copied R s t → P x y → f s x = .ok s' → ∃ t', f' t y = .ok t' ∧ Copied R s' t'

theorem label_alongside (hR : Relator.BiUnique R) : Alongside R (Label.Copied R) label label := by
  intro s t s' l l' hst hl hlabel
  cases hl with
  | scalar v =>
      cases v with
      | foreign name => cases hlabel
      | int n =>
          rw [label, scalar] at hlabel
          split at hlabel
          · next hn =>
              cases hlabel
              exact ⟨t, by rw [label, scalar, if_pos hn]; rfl, hst⟩
          · cases hlabel
      | _ =>
          cases hlabel
          exact ⟨t, rfl, hst⟩
  | date _ hab | moment _ hab =>
      cases hlabel
      exact ⟨_, rfl, (hst.reach hR hab).2⟩

theorem Alongside.foldlM {α : Type} {f f' : Survey → α → Except Failure Survey}
    {P : α → α → Prop} (hstep : Alongside R P f f') :
    Alongside R (List.Forall₂ P) (fun s xs => xs.foldlM f s) fun s xs => xs.foldlM f' s := by
  intro s t s' xs ys hst hall hloop
  induction hall generalizing s t with
  | nil =>
      cases hloop
      exact ⟨t, rfl, hst⟩
  | cons hxy _ ih =>
      simp only [List.foldlM_cons] at hloop ⊢
      obtain ⟨s₁, hfirst, hrest⟩ := bind_eq_ok_iff.1 hloop
      obtain ⟨t₁, hfirst', hst₁⟩ := hstep _ _ _ _ _ hst hxy hfirst
      obtain ⟨t', hrest', hst'⟩ := ih s₁ t₁ hst₁ hrest
      refine ⟨t', ?_, hst'⟩
      exact bind_eq_ok_iff.2 ⟨t₁, hfirst', hrest'⟩

theorem entry_alongside (hR : Relator.BiUnique R)
    (hvalue : Alongside R (Value.Copied R) (value g depth) (value h depth)) :
    Alongside R (EntryCopied R) (entry g depth) (entry h depth) := by
  intro s t s' e e' hst he hentry
  obtain ⟨s₁, hlabel, hrest⟩ := bind_eq_ok_iff.1 hentry
  obtain ⟨t₁, hlabel', hst₁⟩ := label_alongside hR _ _ _ _ _ hst he.1 hlabel
  obtain ⟨t', hrest', hst'⟩ := hvalue _ _ _ _ _ hst₁ he.2 hrest
  exact ⟨t', bind_eq_ok_iff.2 ⟨t₁, hlabel', hrest'⟩, hst'⟩

theorem contents_alongside (hR : Relator.BiUnique R)
    (hvalue : Alongside R (Value.Copied R) (value g depth) (value h depth)) :
    Alongside R (Cell.Copied R) (contents g depth) (contents h depth) := by
  intro s t s' c c' hst hc hcontents
  cases hc with
  | mark =>
      cases hcontents
      exact ⟨t, rfl, hst⟩
  | list hall => exact hvalue.foldlM _ _ _ _ _ hst hall hcontents
  | tuple hne hall => exact hvalue.foldlM _ _ _ _ _ hst hall hcontents
  | set hall => exact (label_alongside hR).foldlM _ _ _ _ _ hst hall hcontents
  | map hall => exact (entry_alongside hR hvalue).foldlM _ _ _ _ _ hst hall hcontents

theorem value_alongside (hcopy : Graph.Copied R g h) (depth : Nat) :
    Alongside R (Value.Copied R) (value g depth) (value h depth) := by
  induction depth with
  | zero =>
      intro s t s' v w hst hv hvalue
      cases hv with
      | leaf hl =>
          rw [value] at hvalue ⊢
          exact label_alongside hcopy.unique _ _ _ _ _ hst hl hvalue
      | ref hab =>
          rw [value] at hvalue ⊢
          cases hvalue
          exact ⟨t, rfl, hst⟩
  | succ depth ih =>
      intro s t s' v w hst hv hvalue
      cases hv with
      | leaf hl =>
          rw [value] at hvalue ⊢
          exact label_alongside hcopy.unique _ _ _ _ _ hst hl hvalue
      | @ref a b hab =>
          have hcell := hcopy.cells a b hab
          obtain ⟨hfirst, hreach⟩ := hst.reach hcopy.unique hab
          rw [value_ref, if_neg (by simp [hcell.isUnit_eq.1])] at hvalue
          rw [value_ref, if_neg (by simp [hcell.isUnit_eq.2]), hfirst]
          split at hvalue
          · next h1 =>
              rw [if_pos h1]
              exact contents_alongside hcopy.unique ih _ _ _ _ _ hreach hcell hvalue
          · next h1 =>
              rw [if_neg h1]
              cases hvalue
              exact ⟨_, rfl, hreach⟩

theorem name?_copied (hR : Relator.BiUnique R) (hst : Copied R s t) (hab : R a b) :
    t.name? b = s.name? a := by
  rw [name?, name?, Graph.Copied.findIdx?_eq hR (List.forall₂_reverse_iff.2 hst.named) hab]

end Survey

/-! ### The shape -/

namespace Shape

variable {α β : Type} {p q : Progress}

structure Progress.Copied (R : Nat → Nat → Prop) (p q : Progress) : Prop where
  names : ∀ a b, R a b → q.survey.name? b = p.survey.name? a
  within : ∀ a b, R a b → a < p.written.size ∧ b < q.written.size
  written : ∀ a b, R a b → q.written.getD b true = p.written.getD a true

theorem Progress.Copied.reach (hR : Relator.BiUnique R) (hpq : Progress.Copied R p q)
    (hab : R a b) :
    (q.reach b).1 = (p.reach a).1 ∧ Progress.Copied R (p.reach a).2 (q.reach b).2 := by
  obtain ⟨ha, hb⟩ := hpq.within a b hab
  rw [Progress.reach, Progress.reach, hpq.names a b hab, getD_of_lt hb false true,
    getD_of_lt ha false true, hpq.written a b hab]
  cases p.written.getD a true with
  | true => exact ⟨rfl, hpq⟩
  | false =>
      refine ⟨rfl, hpq.names, fun x y hxy => ?_, fun x y hxy => ?_⟩
      · simpa using hpq.within x y hxy
      · show (q.written.setIfInBounds b true).getD y true =
          (p.written.setIfInBounds a true).getD x true
        rw [getD_mark, getD_mark, hpq.written x y hxy]
        simp only [Relator.rel_eq hR hxy hab]

def Alongside (R : Nat → Nat → Prop) (P : α → α → Prop) (f f' : Progress → α → β × Progress) :
    Prop :=
  ∀ p q x y, Progress.Copied R p q → P x y →
    (f' q y).1 = (f p x).1 ∧ Progress.Copied R (f p x).2 (f' q y).2

theorem ofLabel_alongside (hR : Relator.BiUnique R) :
    Alongside R (Label.Copied R) ofLabel ofLabel := by
  intro p q l l' hpq hl
  cases hl with
  | scalar v => exact ⟨rfl, hpq⟩
  | @date a b _ hab | @moment a b _ hab =>
      obtain ⟨hsame, hcopied⟩ := hpq.reach hR hab
      rw [ofLabel, ofLabel]
      rcases hp : p.reach a with ⟨again | anchor, p'⟩ <;>
        rcases hq : q.reach b with ⟨again' | anchor', q'⟩ <;>
        rw [hp, hq] at hsame hcopied <;> cases hsame <;> exact ⟨rfl, hcopied⟩

theorem Alongside.thread {f f' : Progress → α → β × Progress} {P : α → α → Prop}
    (hstep : Alongside R P f f') : Alongside R (List.Forall₂ P) (thread f) (thread f') := by
  intro p q xs ys hpq hall
  induction hall generalizing p q with
  | nil => exact ⟨rfl, hpq⟩
  | cons hxy _ ih =>
      obtain ⟨hfirst, hpq'⟩ := hstep p q _ _ hpq hxy
      obtain ⟨hrest, hlast⟩ := ih _ _ hpq'
      exact ⟨congrArg₂ List.cons hfirst hrest, hlast⟩

theorem ofEntry_alongside (hR : Relator.BiUnique R)
    (hvalue : Alongside R (Value.Copied R) (ofValue g depth) (ofValue h depth)) :
    Alongside R (EntryCopied R) (ofEntry g depth) (ofEntry h depth) := by
  intro p q e e' hpq he
  obtain ⟨hkey, hpq'⟩ := ofLabel_alongside hR p q _ _ hpq he.1
  obtain ⟨hrest, hlast⟩ := hvalue _ _ _ _ hpq' he.2
  exact ⟨congrArg₂ Prod.mk hkey hrest, hlast⟩

theorem ofContents_alongside (hR : Relator.BiUnique R)
    (hvalue : Alongside R (Value.Copied R) (ofValue g depth) (ofValue h depth))
    (anchor : Option String) :
    Alongside R (Cell.Copied R) (ofContents g depth anchor) (ofContents h depth anchor) := by
  intro p q c c' hpq hc
  cases hc with
  | mark => exact ⟨rfl, hpq⟩
  | list hall =>
      obtain ⟨hitems, hlast⟩ := hvalue.thread p q _ _ hpq hall
      exact ⟨congrArg (Shape.sequence anchor) hitems, hlast⟩
  | tuple hne hall =>
      obtain ⟨hitems, hlast⟩ := hvalue.thread p q _ _ hpq hall
      exact ⟨congrArg (Shape.sequence anchor) hitems, hlast⟩
  | set hall =>
      obtain ⟨hitems, hlast⟩ := (ofLabel_alongside hR).thread p q _ _ hpq hall
      refine ⟨?_, hlast⟩
      rw [ofContents, ofContents, hitems]
  | map hall =>
      obtain ⟨hentries, hlast⟩ := (ofEntry_alongside hR hvalue).thread p q _ _ hpq hall
      exact ⟨congrArg (Shape.mapping anchor .map) hentries, hlast⟩

theorem ofValue_alongside (hcopy : Graph.Copied R g h) (depth : Nat) :
    Alongside R (Value.Copied R) (ofValue g depth) (ofValue h depth) := by
  induction depth with
  | zero =>
      intro p q v w hpq hv
      cases hv with
      | leaf hl =>
          rw [ofValue, ofValue]
          exact ofLabel_alongside hcopy.unique p q _ _ hpq hl
      | ref hab =>
          rw [ofValue, ofValue]
          exact ⟨rfl, hpq⟩
  | succ depth ih =>
      intro p q v w hpq hv
      cases hv with
      | leaf hl =>
          rw [ofValue, ofValue]
          exact ofLabel_alongside hcopy.unique p q _ _ hpq hl
      | @ref a b hab =>
          have hcell := hcopy.cells a b hab
          obtain ⟨hsame, hcopied⟩ := hpq.reach hcopy.unique hab
          rw [ofValue_ref, ofValue_ref, if_neg (by simp [hcell.isUnit_eq.2]),
            if_neg (by simp [hcell.isUnit_eq.1])]
          rcases hp : p.reach a with ⟨again | anchor, p'⟩ <;>
            rcases hq : q.reach b with ⟨again' | anchor', q'⟩ <;>
            rw [hp, hq] at hsame hcopied <;> cases hsame
          · exact ⟨rfl, hcopied⟩
          · exact ofContents_alongside hcopy.unique ih anchor _ _ _ _ hcopied hcell

end Shape

theorem getD_replicate {size : Nat} (ha : a < size) :
    (Array.replicate size false).getD a true = false := by
  rw [Array.getD_eq_getD_getElem?, Array.getElem?_eq_getElem (by simpa using ha)]
  simp

/-- **A copy is written alike.** -/
theorem write_copied (hcopy : Graph.Copied R g h) {v w : Value} (hv : v.Copied R w)
    {text : String} (hwrite : write g v = .ok text) : write h w = .ok text := by
  have hdepth := Nat.le_max_left (g.cells.size + 1) (h.cells.size + 1)
  have hdepth' := Nat.le_max_right (g.cells.size + 1) (h.cells.size + 1)
  rw [write, Shape.ofGraph_eq hdepth] at hwrite
  rw [write, Shape.ofGraph_eq hdepth']
  obtain ⟨shape, hshape, htext⟩ := bind_eq_ok_iff.1 hwrite
  obtain ⟨s, hsurvey, hshape⟩ := bind_eq_ok_iff.1 hshape
  cases hshape
  cases htext
  have hmarks : ∀ a b, R a b → (Array.replicate h.cells.size false).getD b true =
      (Array.replicate g.cells.size false).getD a true := fun a b hab => by
    rw [getD_replicate (hcopy.within a b hab).1, getD_replicate (hcopy.within a b hab).2]
  obtain ⟨t, hsurvey', hst⟩ :=
    Survey.value_alongside hcopy _ (Survey.start g) (Survey.start h) _ _ _ ⟨hmarks, .nil⟩ hv hsurvey
  have hstart : Shape.Progress.Copied R ⟨s, Array.replicate g.cells.size false⟩
      ⟨t, Array.replicate h.cells.size false⟩ :=
    ⟨fun a b => Survey.name?_copied hcopy.unique hst,
      fun a b hab => by simpa using hcopy.within a b hab, hmarks⟩
  obtain ⟨hsame, -⟩ := Shape.ofValue_alongside hcopy
    (max (g.cells.size + 1) (h.cells.size + 1)) _ _ _ _ hstart hv
  refine bind_eq_ok_iff.2 ⟨_, bind_eq_ok_iff.2 ⟨t, hsurvey', rfl⟩, ?_⟩
  rw [hsame]
  rfl

end Yaml
end KubeAtlas
