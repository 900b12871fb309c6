import Mathlib
import KubeAtlas.Proofs.Store.Contained
import KubeAtlas.Proofs.Yaml.Loaded
/-!
# The last stage of serving a path

What is served is a document that was read and renamed, and writing it is the last stage. That stage
has a fault of its own, for a document that has no written form; and no answer of the provider leads
to it. For what is read has plain labels, whatever its containers and their references are; reading
the parts, renaming and building the document again add nothing but text; and writing refuses no
plain label. A long integer is another matter: it stops the writing, but with a failure that no
stage answers for.
-/

namespace KubeAtlas

open Kubeconfig (parse rename serialize)

theorem Label.isPlain_str (s : String) : (Label.str s).IsPlain := trivial

namespace Yaml

theorem Survey.label_of_isPlain {s : Survey} {l : Label} {e : Failure} (hl : l.IsPlain)
    (h : label s l = .error e) : e = .fault .number := by
  cases l with
  | scalar v =>
      cases v with
      | foreign name => cases hl
      | int n =>
          rw [label, scalar] at h
          split at h
          · cases h
          · exact (Except.error.inj h).symm
      | null | bool b | float x | str s | bytes b => cases h
  | date id d => cases h
  | moment id m => cases h
  | tuple id items => cases hl

end Yaml

namespace Kubeconfig

variable {bytes : List UInt8} {name : String} {d renamed : Document} {f : Failure}

/-- A document that was read and renamed says nothing but what was loaded, and text. -/
theorem labels_of_renamed (hparse : parse bytes = .ok d) (hrename : rename d name = .ok renamed) :
    renamed.WellFormed ∧ ∃ v g, Yaml.loadBytes bytes = .ok (v, g) ∧
      ∀ P : Label → Prop, (∀ s, P (.str s)) → g.All P → renamed.All P := by
  obtain ⟨hform, v, g, hload, hread⟩ := parse_eq_ok hparse
  obtain ⟨hform', hkept⟩ := hform.rename hrename
  exact ⟨hform', v, g, hload, fun P htext hg => hkept P htext (hread P hg)⟩

theorem serialize_renamed_eq_error (hparse : parse bytes = .ok d)
    (hrename : rename d name = .ok renamed) (h : serialize renamed = .error f) :
    f = .fault .number ∧ ∃ v g, Yaml.loadBytes bytes = .ok (v, g) ∧ ¬ g.IsShowable := by
  obtain ⟨hform, v, g, hload, hlabels⟩ := labels_of_renamed hparse hrename
  obtain ⟨-, -, hplain⟩ := Yaml.loadBytes_eq_ok hload
  have hnumber : f = .fault .number := by
    rcases serialize_failsAt hform Label.isPlain_str (hlabels _ Label.isPlain_str hplain) h with
      ⟨e, ⟨s, l, hl, hfails⟩, -⟩ | ⟨fault, ⟨s, l, hl, hfails⟩, rfl⟩
    · cases Yaml.Survey.label_of_isPlain hl hfails
    · cases Yaml.Survey.label_of_isPlain hl hfails
      rfl
  refine ⟨hnumber, v, g, hload, fun hg => ?_⟩
  rcases serialize_eq_error hform h with ⟨e, hformat⟩ | ⟨-, hnot⟩
  · cases hnumber.symm.trans hformat
  · exact hnot (hlabels _ Label.isShowable_str (Graph.isShowable_iff.1 hg))

end Kubeconfig

namespace Store

open Cluster (Index)

variable {σ : Type}

def IsUnwritten (f : Failure) : Prop :=
  ∃ path detail cause, f = .path .serialization path detail cause

theorem materialize_writes {path name : String} {answer : Datum} {f : Failure}
    (h : materialize serialize path name answer = .error f) : ¬ IsUnwritten f := by
  rintro ⟨place, detail, cause, rfl⟩
  rw [materialize_eq] at h
  split at h
  · cases h
  · next bytes hdecode =>
      split at h
      · next reason hreason =>
          cases reason <;> cases h
      · next renamed hrenamed =>
          obtain ⟨d, hparse, hrename⟩ := bind_eq_ok_iff.1 hrenamed
          split at h
          · next reason hreason =>
              obtain ⟨rfl, -⟩ := Kubeconfig.serialize_renamed_eq_error hparse hrename hreason
              cases h
          · cases h

/-- **The last stage never refuses.** Whatever bytes a document was read from and whatever it is
renamed to, it has a written form, and is written unless a long integer was among what was loaded.
So no provider makes a path fail for want of a written form. -/
theorem renamed_always_written :
    (∀ (bytes : List UInt8) (name : String) (d renamed : Kubeconfig.Document),
      parse bytes = .ok d → rename d name = .ok renamed →
        (∀ e, serialize renamed ≠ .error (.format e)) ∧
        ((∀ v g, Yaml.loadBytes bytes = .ok (v, g) → g.IsShowable) →
          ∃ text, serialize renamed = .ok text)) ∧
    ∀ (p : Provider σ) (ix : Index) (path : String) (w : World σ) (f : Failure),
      ((kubeconfig p serialize ix path).perform w).1 = .error f → ¬ IsUnwritten f := by
  refine ⟨fun bytes name d renamed hparse hrename => ⟨fun e herror => ?_, fun hall => ?_⟩,
    fun p ix path w f h => ?_⟩
  · obtain ⟨hnumber, -⟩ := Kubeconfig.serialize_renamed_eq_error hparse hrename herror
    cases hnumber
  · rcases hserialize : serialize renamed with f | text
    · obtain ⟨-, v, g, hload, hnot⟩ :=
        Kubeconfig.serialize_renamed_eq_error hparse hrename hserialize
      exact absurd (hall v g hload) hnot
    · exact ⟨text, rfl⟩
  · rw [perform_kubeconfig] at h
    split at h
    · next e hlocate =>
        cases h
        rintro ⟨_, _, _, rfl⟩
        rcases locate_eq_error_cases hlocate with hf | hf <;> cases hf
    · split at h
      · cases h
        rintro ⟨_, _, _, hf⟩
        cases hf
      · exact materialize_writes h

/-! ### A body that holds itself -/

def knotted : String := "clusters:\n- name: a\n  cluster: &c\n    self: *c\n"

def knottedNodes : Yaml.Document where
  nodes := #[⟨.map, .mapping [(1, 2)]⟩, ⟨.str, .scalar "clusters"⟩, ⟨.seq, .sequence [3]⟩,
    ⟨.map, .mapping [(4, 5), (6, 7)]⟩, ⟨.str, .scalar "name"⟩, ⟨.str, .scalar "a"⟩,
    ⟨.str, .scalar "cluster"⟩, ⟨.map, .mapping [(8, 7)]⟩, ⟨.str, .scalar "self"⟩]
  root := 0

def knottedGraph : Graph := ⟨#[
  .map [(.str "clusters", .ref 1)],
  .list [.ref 2],
  .map [(.str "name", .str "a"), (.str "cluster", .ref 3)],
  .map [(.str "self", .ref 3)]]⟩

def knottedDocument : Kubeconfig.Document where
  graph := knottedGraph
  clusters := [(.str "a", .ref 3)]
  contexts := []
  users := []
  currentContext := .null
  extra := []
  keyOrder := [.str "clusters"]

theorem load_knotted :
    Yaml.loadBytes (Text.Utf8.encode knotted.toList) = .ok (.ref 0, knottedGraph) := by
  have hnodes : Yaml.checkedBytes (Text.Utf8.encode knotted.toList) = .ok knotted.toList ∧
      Yaml.Document.read (Yaml.Event.read (Yaml.Token.read knotted.toList)) =
        .ok (some knottedNodes) := by decide +kernel
  rw [Yaml.loadBytes_of_nodes hnodes.1 hnodes.2]
  cbv

theorem isShowable_knotted : knottedGraph.IsShowable := by
  intro id
  match id with
  | 0 | 1 | 2 | 3 => simp [knottedGraph, Graph.cell, Cell.IsShowable, Value.IsShowable,
      Label.IsShowable, Label.datum, Datum.isShowable]
  | n + 4 => exact trivial

/-- The renamed document is written although its cluster holds itself. -/
theorem renamed_always_written_knotted :
    ∃ d renamed, parse (Text.Utf8.encode knotted.toList) = .ok d ∧ rename d "b" = .ok renamed ∧
      (∀ e, serialize renamed ≠ .error (.format e)) ∧ ∃ text, serialize renamed = .ok text := by
  have hparse : parse (Text.Utf8.encode knotted.toList) = .ok knottedDocument := by
    rw [Kubeconfig.parse_of_entries load_knotted rfl]
    cbv
  obtain ⟨renamed, hrename⟩ := (Kubeconfig.rename_eq_ok_iff (Kubeconfig.parse_eq_ok hparse).1).2
    ⟨show "b" ≠ "" by decide, Nat.le_refl 1⟩
  obtain ⟨hnever, hwritten⟩ := (renamed_always_written (σ := Unit)).1 _ _ _ _ hparse hrename
  refine ⟨knottedDocument, renamed, hparse, hrename, hnever, hwritten fun v g hload => ?_⟩
  obtain ⟨-, rfl⟩ := Prod.mk.inj (Except.ok.inj (hload.symm.trans load_knotted))
  exact isShowable_knotted

end Store
end KubeAtlas
