import KubeAtlas.Proofs.Except
import KubeAtlas.Proofs.Graph.Showable
import KubeAtlas.Yaml.Write
/-!
# What cannot be written

A value is written after one walk through it, and only the walk can fail: at a label with something
that no document can express, or with an integer that is too long. So whatever is known of all
labels of a graph is known of the label at which writing fails. A walk comes to each cell once, and
what it finds does not depend on what was reached before; the lemmas therefore speak of every
survey.
-/

namespace KubeAtlas.Yaml

/-- A failure that says that a value has no written form, or one over a long integer. -/
def Failure.IsOver (e : Failure) (shows : Prop) : Prop :=
  (∃ m, e = .malformed m) ∨ e = .fault .number ∧ ¬ shows

theorem Failure.IsOver.mono {e : Failure} {p q : Prop} (he : e.IsOver p) (hqp : q → p) :
    e.IsOver q :=
  he.imp_right (And.imp_right (mt hqp))

namespace Survey

variable {g : Graph} {s : Survey} {e : Failure} {P : Label → Prop}

/-! ### One label -/

theorem scalar_eq_error {v : Scalar} (h : s.scalar v = .error e) :
    e.IsOver (Label.scalar v).IsShowable := by
  cases v with
  | foreign name =>
      cases h
      exact .inl ⟨_, rfl⟩
  | int n =>
      rw [scalar] at h
      split at h
      · cases h
      · next hn =>
          cases h
          exact .inr ⟨rfl, hn⟩
  | _ => cases h

mutual

theorem label_eq_error (l : Label) {s : Survey} {e : Failure} (h : s.label l = .error e) :
    e.IsOver l.IsShowable := by
  cases l with
  | scalar v => exact scalar_eq_error h
  | date id d => cases h
  | moment id m => cases h
  | tuple id items =>
      have hitems {s : Survey} (h : s.labels items = .error e) :
          e.IsOver (Label.tuple id items).IsShowable :=
        (labels_eq_error items h).mono fun hshow => Label.areShowable_data.1 hshow
      cases items with
      | nil => cases h
      | cons l rest =>
          rw [label] at h
          · split at h
            · exact hitems h
            · cases h
          · simp

theorem labels_eq_error (ls : List Label) {s : Survey} {e : Failure} (h : s.labels ls = .error e) :
    e.IsOver (∀ l ∈ ls, l.IsShowable) := by
  cases ls with
  | nil => cases h
  | cons l rest =>
      rw [labels] at h
      rcases bind_eq_error_iff.1 h with hfirst | ⟨s, -, hrest⟩
      · exact (label_eq_error l hfirst).mono fun hall => hall l List.mem_cons_self
      · exact (labels_eq_error rest hrest).mono fun hall l hl => hall l (List.mem_cons_of_mem _ hl)

end

/-! ### One value -/

/-- The walk fails so at some label with the property. -/
def FailsAt (P : Label → Prop) (e : Failure) : Prop := ∃ s l, P l ∧ label s l = .error e

theorem labels_failsAt {ls : List Label} (hls : ∀ l ∈ ls, P l) (h : s.labels ls = .error e) :
    FailsAt P e := by
  induction ls generalizing s with
  | nil => cases h
  | cons l rest ih =>
      obtain ⟨hl, hrest⟩ := List.forall_mem_cons.1 hls
      rw [labels] at h
      rcases bind_eq_error_iff.1 h with hfirst | ⟨s', -, hlater⟩
      · exact ⟨s, l, hl, hfirst⟩
      · exact ih hrest hlater

theorem several_failsAt {depth : Nat}
    (hvalue : ∀ {s : Survey} {v : Value}, v.All P → value g depth s v = .error e → FailsAt P e)
    {items : List Value} (hitems : ∀ v ∈ items, v.All P) (h : several g depth s items = .error e) :
    FailsAt P e := by
  induction items generalizing s with
  | nil => rw [several] at h; cases h
  | cons v rest ih =>
      obtain ⟨hv, hrest⟩ := List.forall_mem_cons.1 hitems
      rw [several] at h
      rcases bind_eq_error_iff.1 h with hfirst | ⟨s', -, hlater⟩
      · exact hvalue hv hfirst
      · exact ih hrest hlater

theorem entriesOf_failsAt {depth : Nat}
    (hvalue : ∀ {s : Survey} {v : Value}, v.All P → value g depth s v = .error e → FailsAt P e)
    {entries : List (Label × Value)} (hentries : ∀ e ∈ entries, P e.1 ∧ e.2.All P)
    (h : entriesOf g depth s entries = .error e) : FailsAt P e := by
  induction entries generalizing s with
  | nil => rw [entriesOf] at h; cases h
  | cons entry rest ih =>
      obtain ⟨l, v⟩ := entry
      obtain ⟨⟨hl, hv⟩, hrest⟩ := List.forall_mem_cons.1 hentries
      rw [entriesOf] at h
      rcases bind_eq_error_iff.1 h with hlabel | ⟨s', -, h⟩
      · exact ⟨s, l, hl, hlabel⟩
      · rcases bind_eq_error_iff.1 h with hfirst | ⟨s'', -, hlater⟩
        · exact hvalue hv hfirst
        · exact ih hrest hlater

theorem value_failsAt (hg : g.All P) {depth : Nat} {v : Value} (hv : v.All P)
    (h : value g depth s v = .error e) : FailsAt P e := by
  induction depth generalizing s v with
  | zero => cases v with
    | leaf l =>
        rw [value] at h
        exact ⟨s, l, hv, h⟩
    | ref id => rw [value] at h; cases h
  | succ depth ih => cases v with
    | leaf l =>
        rw [value] at h
        exact ⟨s, l, hv, h⟩
    | ref id =>
        rw [value] at h
        split at h
        · cases h
        · split at h
          · cases h
          · split at h
            · cases h
            · next hc => exact several_failsAt ih (hg.of_cell hc) h
            · next hc => exact several_failsAt ih (hg.of_cell hc) h
            · next hc => exact labels_failsAt (hg.of_cell hc) h
            · next hc => exact entriesOf_failsAt ih (hg.of_cell hc) h

end Survey

/-- Writing fails at one of the labels that are written, or not at all. -/
theorem write_failsAt {g : Graph} {v : Value} {e : Failure} {P : Label → Prop}
    (h : write g v = .error e) (hg : g.All P) (hv : v.All P) : Survey.FailsAt P e := by
  rw [write] at h
  rcases bind_eq_error_iff.1 h with hshape | ⟨_, -, h⟩
  · rw [Shape.ofGraph] at hshape
    rcases bind_eq_error_iff.1 hshape with hsurvey | ⟨_, -, h⟩
    · exact Survey.value_failsAt hg hv hsurvey
    · cases h
  · cases h

end KubeAtlas.Yaml
