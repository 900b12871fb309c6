import KubeAtlas.Config.Entry
import KubeAtlas.Proofs.Except
/-!
# What comes of an entry

An entry of the configuration that cannot be used is reported, but for two things. The kind is made
text whatever it is, and an integer that is too long has no text; and the paths are gone through
item by item, which a number, a truth value or a date does not allow. `Escapes` lists the two. The
failures that come out of them are no reports about the configuration.
-/

namespace KubeAtlas

def Failure.IsConfiguration (f : Failure) : Prop := ∃ e, f = .configuration e

theorem Failure.isConfiguration_configuration (e : ConfigError) :
    (Failure.configuration e).IsConfiguration := ⟨e, rfl⟩

namespace Graph

variable {g : Graph} {v : Value} {f : Failure}

/-- A value without items: neither a collection nor a text. -/
inductive IsBare (g : Graph) : Value → Prop
  | scalar {s : Scalar} (hstr : ∀ t, s ≠ .str t) (hbytes : ∀ b, s ≠ .bytes b) :
      IsBare g (.leaf (.scalar s))
  | date (id : Nat) (d : Date) : IsBare g (.leaf (.date id d))
  | moment (id : Nat) (m : Moment) : IsBare g (.leaf (.moment id m))
  | mark {id : Nat} (h : g.cell id = .mark) : IsBare g (.ref id)

theorem eachOf_eq_error_iff :
    g.eachOf v = .error f ↔ g.IsBare v ∧ f = .wrongKind (.notIterable (g.kind v)) := by
  constructor
  · intro h
    cases v with
    | leaf l =>
        cases l with
        | scalar s =>
            cases s with
            | str t => cases h
            | bytes b => cases h
            | _ =>
                cases h
                exact ⟨.scalar (by simp) (by simp), rfl⟩
        | date id d =>
            cases h
            exact ⟨.date id d, rfl⟩
        | moment id m =>
            cases h
            exact ⟨.moment id m, rfl⟩
        | tuple id items => cases h
    | ref id =>
        cases hcell : g.cell id with
        | mark =>
            simp only [eachOf, cell?, hcell] at h
            cases h
            exact ⟨.mark hcell, rfl⟩
        | _ =>
            simp only [eachOf, cell?, hcell] at h
            cases h
  · rintro ⟨hbare, rfl⟩
    cases hbare with
    | @scalar s hstr hbytes =>
        cases s with
        | str t => exact absurd rfl (hstr t)
        | bytes b => exact absurd rfl (hbytes b)
        | _ => rfl
    | date id d => rfl
    | moment id m => rfl
    | @mark id hcell =>
        simp only [eachOf, cell?, hcell]
        rfl

theorem eachOf?_eq_error_iff {found : Option Value} :
    g.eachOf? found = .error f ↔ ∃ v, found = some v ∧ g.isTruthy v = true ∧ g.IsBare v ∧
      f = .wrongKind (.notIterable (g.kind v)) := by
  cases found with
  | none => exact iff_of_false (fun h => by cases h) (by rintro ⟨v, h, -⟩; cases h)
  | some v =>
      simp only [eachOf?, Option.some.injEq, exists_eq_left']
      split
      · next htruthy => rw [eachOf_eq_error_iff, and_iff_right htruthy]
      · next hnot => exact iff_of_false (fun h => by cases h) fun h => hnot h.1

end Graph

namespace StoreEntry

open Kubeconfig (field? present?)

variable {g : Graph} {v : Value} {d : Datum} {f : Failure}

theorem textOf_eq_ok_iff {text : String} :
    textOf d = .ok text ↔ d.isShowable = true ∧ text = d.text := by
  rw [textOf]
  split
  · next h => simp [h, pure_eq_ok, eq_comm]
  · next h => exact iff_of_false (fun h => by cases h) fun hshown => h hshown.1

theorem textOf_eq_error_iff :
    textOf d = .error f ↔ ¬ d.isShowable = true ∧ f = .document (.fault .number) := by
  rw [textOf]
  split
  · next h => exact iff_of_false (fun h => by cases h) fun hnot => hnot.1 h
  · next h =>
      rw [and_iff_right h]
      exact ⟨fun hf => (Except.error.inj hf).symm, fun hf => congrArg _ hf.symm⟩

theorem configOf_eq_error {kind : Datum} {found : Option Value}
    (h : configOf g kind found = .error f) :
    kind.isShowable = true ∧ f.IsConfiguration ∨
      ¬ kind.isShowable = true ∧ f = .document (.fault .number) := by
  rw [configOf] at h
  split at h
  · cases h
  · cases h
  · rcases bind_eq_error_iff.1 h with hkind | ⟨text, htext, h⟩
    · exact .inr (textOf_eq_error_iff.1 hkind)
    · exact .inl ⟨(textOf_eq_ok_iff.1 htext).1, _, (Except.error.inj h).symm⟩

/-- An entry with something in it that no report is made of. -/
inductive Escapes (g : Graph) (v : Value) : Failure → Prop
  | kind {fields : List (Label × Value)} {kind : Value} (hfields : g.entries? v = some fields)
      (hkind : present? g fields "kind" = some kind) (hlong : ¬ (g.unfold kind).isShowable = true) :
      Escapes g v (.document (.fault .number))
  | paths {fields : List (Label × Value)} {kind paths : Value} {config : Datum}
      (hfields : g.entries? v = some fields) (hkind : present? g fields "kind" = some kind)
      (hshown : (g.unfold kind).isShowable = true)
      (hconfig : configOf g (g.unfold kind) (field? fields "config") = .ok config)
      (hpaths : field? fields "paths" = some paths) (hpresent : g.isTruthy paths = true)
      (hbare : g.IsBare paths) : Escapes g v (.wrongKind (.notIterable (g.kind paths)))

theorem ofValue_of_kind {fields : List (Label × Value)} {kind : Value}
    (hfields : g.entries? v = some fields) (hkind : present? g fields "kind" = some kind) :
    ofValue g v = (do
      let config ← configOf g (g.unfold kind) (field? fields "config")
      let text ← textOf (g.unfold kind)
      let paths ← g.eachOf? (field? fields "paths")
      pure ⟨.str text, g.unfoldOrNull (field? fields "id"),
        g.unfoldOrNull (field? fields "showPrefix"), .list (paths.map g.unfold), config⟩) := by
  rw [ofValue, hfields]
  simp only [hkind]

/-- An entry is refused with a report unless it escapes. -/
theorem ofValue_eq_error_iff :
    ofValue g v = .error f ∧ ¬ f.IsConfiguration ↔ Escapes g v f := by
  constructor
  · rintro ⟨h, hnot⟩
    rcases hfields : g.entries? v with _ | fields
    · rw [ofValue, hfields] at h
      cases h
      exact absurd (Failure.isConfiguration_configuration _) hnot
    · rcases hkind : present? g fields "kind" with _ | kind
      · rw [ofValue, hfields] at h
        simp only [hkind] at h
        cases h
        exact absurd (Failure.isConfiguration_configuration _) hnot
      · rw [ofValue_of_kind hfields hkind] at h
        rcases bind_eq_error_iff.1 h with hconfig | ⟨config, hconfig, h⟩
        · rcases configOf_eq_error hconfig with ⟨-, hreport⟩ | ⟨hlong, rfl⟩
          · exact absurd hreport hnot
          · exact .kind hfields hkind hlong
        · rcases bind_eq_error_iff.1 h with htext | ⟨text, htext, h⟩
          · obtain ⟨hlong, rfl⟩ := textOf_eq_error_iff.1 htext
            exact .kind hfields hkind hlong
          · rcases bind_eq_error_iff.1 h with hitems | ⟨items, -, h⟩
            · obtain ⟨paths, hpaths, hpresent, hbare, rfl⟩ := Graph.eachOf?_eq_error_iff.1 hitems
              exact .paths hfields hkind (textOf_eq_ok_iff.1 htext).1 hconfig hpaths hpresent hbare
            · cases h
  · intro h
    cases h with
    | @kind fields kind hfields hkind hlong =>
        refine ⟨?_, by rintro ⟨e, he⟩; cases he⟩
        have htext := textOf_eq_error_iff.2 ⟨hlong, rfl⟩
        rw [ofValue_of_kind hfields hkind, bind_eq_error_iff]
        rcases hconfig : configOf g (g.unfold kind) (field? fields "config") with e | config
        · -- a report about the settings would have to show the kind
          rcases configOf_eq_error hconfig with ⟨hshown, -⟩ | ⟨-, rfl⟩
          · exact absurd hshown hlong
          · exact .inl rfl
        · exact .inr ⟨config, rfl, bind_eq_error_iff.2 (.inl htext)⟩
    | @paths fields kind paths config hfields hkind hshown hconfig hpaths hpresent hbare =>
        refine ⟨?_, by rintro ⟨e, he⟩; cases he⟩
        have htext := textOf_eq_ok_iff.2 ⟨hshown, rfl⟩
        have hitems := Graph.eachOf?_eq_error_iff.2 ⟨paths, hpaths, hpresent, hbare, rfl⟩
        rw [ofValue_of_kind hfields hkind]
        exact bind_eq_error_iff.2 (.inr ⟨config, hconfig, bind_eq_error_iff.2 (.inr
          ⟨_, htext, bind_eq_error_iff.2 (.inl hitems)⟩)⟩)

end StoreEntry
end KubeAtlas
