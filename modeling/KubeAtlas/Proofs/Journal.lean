import KubeAtlas.Proofs.Json
import KubeAtlas.Proofs.Provider
/-!
# What is recorded

A payload that has a JSON text can be recorded, for what is blotted out is replaced by text.

Warnings and worse are recorded whether or not the journal is verbose. An action that adds none is
discreet, and so is whatever is put together from discreet actions. If a provider is discreet, every
warning of a search over it is the store's own.
-/

namespace KubeAtlas

namespace Journal

/-- The messages that are recorded in any case. -/
def graves (j : Journal) : List Entry := j.entries.filter fun e => e.level.isGrave

theorem graves_record (j : Journal) (e : Entry) :
    (j.record e).graves = if e.level.isGrave then j.graves ++ [e] else j.graves := by
  rw [record]
  by_cases hgrave : e.level.isGrave
  · rw [if_pos (by simp [hgrave]), if_pos hgrave]
    simp [graves, hgrave]
  · rw [if_neg hgrave]
    split
    · simp [graves, hgrave]
    · rfl

theorem verbose_record (j : Journal) (e : Entry) : (j.record e).verbose = j.verbose := by
  rw [record]
  split <;> rfl

section Payload

variable {j k : Journal} {logger heading context : String} {members : List (Datum × Datum)}

/-- What is recorded beside warnings: nothing, or a message that only a verbose journal takes. -/
inductive Noted (j : Journal) : Journal → Prop
  | nothing : Noted j j
  | debug (logger : String) (message : String) :
      Noted j (j.record ⟨.debug, logger, none, message⟩)

theorem Noted.graves_eq (h : j.Noted k) : k.graves = j.graves := by
  cases h with
  | nothing => rfl
  | debug logger message => exact graves_record j _

theorem Noted.verbose_eq (h : j.Noted k) : k.verbose = j.verbose := by
  cases h with
  | nothing => rfl
  | debug logger message => exact verbose_record j _

theorem noted_recordPayload (h : j.recordPayload logger heading members = .ok k) : j.Noted k := by
  obtain ⟨text, -, h⟩ := bind_eq_ok_iff.1 h
  cases h
  exact .debug _ _

theorem noted_request (h : j.request context members = .ok k) : j.Noted k := by
  rw [request] at h
  split at h
  · exact noted_recordPayload h
  · cases h
    exact .nothing

theorem noted_response (h : j.response context members = .ok k) : j.Noted k := by
  rw [response] at h
  split at h
  · exact noted_recordPayload h
  · cases h
    exact .nothing

theorem exists_write_redact {sp : Json.Spacing}
    (h : ∃ text, Json.write sp (.map members) = .ok text) (other : Json.Spacing) :
    ∃ text, Json.write other (.map (redact members)) = .ok text := by
  obtain hwritten := Json.exists_write_map_iff.1 (Json.exists_write_of_write sp other _ h)
  refine Json.exists_write_map_iff.2 (List.forall_mem_map.2 fun e he => ?_)
  obtain ⟨hname, hvalue⟩ := hwritten e he
  refine ⟨hname, ?_⟩
  dsimp only
  split
  · exact ⟨_, rfl⟩
  · exact hvalue

theorem exists_recordPayload {sp : Json.Spacing}
    (h : ∃ text, Json.write sp (.map members) = .ok text) (j : Journal) (logger heading : String) :
    ∃ k, j.recordPayload logger heading members = .ok k := by
  obtain ⟨text, htext⟩ := exists_write_redact h .compact
  exact ⟨_, by rw [recordPayload, payloadText, textOf, htext]; rfl⟩

theorem exists_request {sp : Json.Spacing}
    (h : ∃ text, Json.write sp (.map members) = .ok text) (j : Journal) (context : String) :
    ∃ k, j.request context members = .ok k := by
  rw [request]
  split
  · exact exists_recordPayload h j _ _
  · exact ⟨j, rfl⟩

theorem exists_response {sp : Json.Spacing}
    (h : ∃ text, Json.write sp (.map members) = .ok text) (j : Journal) (context : String) :
    ∃ k, j.response context members = .ok k := by
  rw [response]
  split
  · exact exists_recordPayload h j _ _
  · exact ⟨j, rfl⟩

end Payload

end Journal

theorem World.graves_recordAll {σ : Type} (w : World σ) (es : List Entry) :
    (w.recordAll es).journal.graves =
      w.journal.graves ++ es.filter fun e => e.level.isGrave := by
  induction es generalizing w with
  | nil => exact (List.append_nil _).symm
  | cons e es ih =>
      have hfirst : (w.record e).journal.graves =
          if e.level.isGrave then w.journal.graves ++ [e] else w.journal.graves :=
        Journal.graves_record w.journal e
      refine (ih (w.record e)).trans ?_
      rw [hfirst, List.filter_cons]
      split
      · rw [List.append_assoc, List.singleton_append]
      · rfl

namespace Action

variable {σ α β : Type}

def IsDiscreet (a : Action σ α) : Prop :=
  ∀ w, (a.perform w).2.journal.graves = w.journal.graves

theorem isDiscreet_liftM (r : Except Failure α) : (liftM r : Action σ α).IsDiscreet := by
  intro w
  rw [perform_liftM]

theorem IsDiscreet.bind {a : Action σ α} {next : α → Action σ β} (ha : a.IsDiscreet)
    (hnext : ∀ x, (next x).IsDiscreet) : (a >>= next).IsDiscreet := by
  intro w
  have hfirst := ha w
  rw [perform_bind]
  rcases hperform : a.perform w with ⟨e | x, v⟩ <;> rw [hperform] at hfirst
  · exact hfirst
  · exact (hnext x v).trans hfirst

theorem IsDiscreet.tryCatch {a : Action σ α} {handle : Failure → Action σ α} (ha : a.IsDiscreet)
    (hhandle : ∀ e, (handle e).IsDiscreet) : (tryCatch a handle).IsDiscreet := by
  intro w
  have hfirst := ha w
  rw [perform_tryCatch]
  rcases hperform : a.perform w with ⟨e | x, v⟩ <;> rw [hperform] at hfirst
  · exact (hhandle e v).trans hfirst
  · exact hfirst

theorem isDiscreet_journal {change : Journal → Except Failure Journal}
    (hchange : ∀ {j k}, change j = .ok k → k.graves = j.graves) :
    (journal change : Action σ Unit).IsDiscreet := by
  intro w
  rw [perform_journal]
  split
  · next h => exact hchange h
  · rfl

end Action

structure Provider.IsDiscreet {σ : Type} (p : Provider σ) : Prop where
  zones : p.zones.IsDiscreet
  clusters : ∀ endpoint, (p.clusters endpoint).IsDiscreet

end KubeAtlas
