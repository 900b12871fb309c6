import KubeAtlas.Proofs.Api.Outcome
import KubeAtlas.Proofs.Store.Pass
/-!
# Answers with a bad status

An answer whose status is 400 or more is a refusal, and ends a call with an error that tells of it:
the error carries the status, and its text the message of the answer or all of it. Any other answer
is read as if all were well, whatever its status (`Query.settle_eq_of_lt`). So an answer with a
status like 304 and nothing in it is a list without entries, and a search over it finds an account
without zones, not one that cannot be reached.
-/

namespace KubeAtlas

namespace Api

variable {σ α : Type} {c : Client} {t : Transport σ} {q : Query α} {a : Action σ α} {w : World σ}
  {r : Response} {url : String}

/-- The failure is an error of the interface that carries the status of an answer and its words. -/
def Response.IsToldBy (r : Response) (f : Failure) : Prop :=
  ∃ e m, f = .api e ∧ e.status? = some r.status ∧ Tells r.body m ∧
    e.message = s!"HTTP {r.status}: {m}"

namespace Client

/-- Below 400 the status of an answer is not looked at. -/
theorem interpret_eq_of_lt (h : r.status < 400) :
    interpret url r = interpret url ⟨200, r.body⟩ := by
  have hother : ¬ (400 : Int) ≤ 200 := by decide
  rw [interpret, interpret, if_neg (by omega), if_neg hother]

theorem le_of_interpret_eq_error {e : ApiError} (h : interpret url r = .error (.api e))
    (hstatus : e.status?.isSome) : 400 ≤ r.status := by
  by_contra hlow
  rw [interpret, if_neg hlow] at h
  split at h
  · cases h
  · split at h
    · split at h
      · cases h
        cases hstatus
      · cases h
    · cases h
    · cases h
      cases hstatus

theorem interpret_told_iff (url : String) : (∃ f, interpret url r = .error f ∧ r.IsToldBy f) ↔
    400 ≤ r.status ∧ ∀ e, ¬ HasLongInteger r.body e := by
  constructor
  · rintro ⟨f, h, e, m, rfl, hstatus, -, -⟩
    refine ⟨le_of_interpret_eq_error h (by rw [hstatus]; rfl), fun d hlong => ?_⟩
    rw [interpret_long hlong] at h
    cases h
  · rintro ⟨hstatus, hshort⟩
    obtain ⟨m, htells, hm, -⟩ | ⟨e, hlong, -⟩ := errorText_cases r.body
    · exact ⟨_, interpret_refused hstatus hm, _, m, rfl, rfl, htells, rfl⟩
    · exact absurd hlong (hshort e)

end Client

namespace Query

theorem settle_eq_of_lt (q : Query α) (h : r.status < 400) :
    q.settle (.ok r) = q.settle (.ok ⟨200, r.body⟩) := by
  rw [settle, settle, Client.interpret_eq_of_lt h]

theorem IsCall.status?_of_read (h : IsCall c t q a) {members : List (Datum × Datum)} {e : ApiError}
    (hread : q.read members = .error (.api e)) : e.status? = none := by
  rcases h.read_eq_error hread with ⟨name, -, hshape⟩ | ⟨id, hid⟩
  · exact absurd ⟨e, rfl⟩ hshape.not_isApi
  · cases hid
    rfl

/-- What tells of an answer comes from its status, never from its members. -/
theorem settle_told_iff (h : IsCall c t q a) : (∃ f, q.settle (.ok r) = .error f ∧ r.IsToldBy f) ↔
    400 ≤ r.status ∧ ∀ e, ¬ HasLongInteger r.body e := by
  rw [← Client.interpret_told_iff q.url]
  refine exists_congr fun f => and_congr_left fun htold => ?_
  constructor
  · intro hsettle
    rcases bind_eq_error_iff.1 hsettle with hanswer | ⟨members, -, hread⟩
    · exact hanswer
    · obtain ⟨e, m, rfl, hstatus, -, -⟩ := htold
      rw [h.status?_of_read hread] at hstatus
      cases hstatus
  · exact fun hanswer => bind_eq_error_iff.2 (.inl hanswer)

end Query
end Api

namespace Store

open Api (Client Response Transport HasLongInteger)
open Api.Query (zones IsCall Meets settle_told_iff settle_eq_of_lt perform_of_meets)
open Cluster (Index)

variable {σ : Type} {c : Client} {t : Transport σ} {w : World σ} {r : Response}

def asking (w : World σ) : World σ := w.record (note .debug "Exoscale: start search")

/-- The zones that a search is told of are what the client makes of the answer. -/
theorem perform_asking (hopens : t.Opens)
    (h : (zones c).Meets c t (asking w) (.ok r)) :
    (((c.provider t).zones).perform (asking w)).1 = (zones c).settle (.ok r) :=
  perform_of_meets .zones hopens h

theorem discover_of_asking_error {p : Provider σ} {e : Failure} (ix : Index)
    (h : (p.zones.perform (asking w)).1 = .error e) :
    (discover p ix w).results = [.failed (.unavailable e)] ∧ (discover p ix w).failure = none := by
  rcases hzones : p.zones.perform (asking w) with ⟨d | found, v⟩
  · rw [hzones] at h
    cases h
    rw [discover_unavailable ix hzones]
    exact ⟨rfl, rfl⟩
  · rw [hzones] at h
    cases h

theorem discover_of_asking_nil {p : Provider σ} (ix : Index)
    (h : (p.zones.perform (asking w)).1 = .ok []) :
    (discover p ix w).results = [] ∧ (discover p ix w).failure = none := by
  rcases hzones : p.zones.perform (asking w) with ⟨e | found, v⟩
  · rw [hzones] at h
    cases h
  · rw [hzones] at h
    cases h
    have hpass := discover_follows ix hzones
    have hnone : Search.reports p w = [] := by
      rw [asking] at hzones
      rw [Search.reports, hzones]
      rfl
    rw [hpass.results, hpass.failure, hnone]
    exact ⟨rfl, rfl⟩

/-- **When a refusal is told of.** A call whose request is answered ends with an error that carries
the status of the answer and its words exactly if the status is 400 or more and no integer in the
text is too long. Below 400 the call ends as if the status were 200. So does a search that lists the
zones: from 400 on its one result says that they cannot be listed, and an answer below that names no
zones shows nothing and is not told from an account without zones. -/
theorem refusals_told_iff (hopens : t.Opens)
    (c : Client) (r : Response) :
    (∀ {α : Type} {q : Api.Query α} {a : Action σ α}, IsCall c t q a → ∀ w,
      q.Meets c t w (.ok r) →
        ((∃ f, (a.perform w).1 = .error f ∧ r.IsToldBy f) ↔
          400 ≤ r.status ∧ ∀ e, ¬ HasLongInteger r.body e) ∧
        (r.status < 400 → (a.perform w).1 = q.settle (.ok ⟨200, r.body⟩))) ∧
      ∀ ix w, (zones c).Meets c t (asking w) (.ok r) →
        let pass := discover (c.provider t) ix w
        (400 ≤ r.status → ∃ f, pass.results = [.failed (.unavailable f)] ∧ pass.failure = none ∧
          ((∀ e, ¬ HasLongInteger r.body e) → r.IsToldBy f)) ∧
        (r.status < 400 → (zones c).settle (.ok ⟨200, r.body⟩) = .ok [] →
          pass.results = [] ∧ pass.failure = none) := by
  refine ⟨fun ha w hmeets => ?_, fun ix w hmeets => ⟨fun hstatus => ?_, fun hstatus hnone => ?_⟩⟩
  · rw [perform_of_meets ha hopens hmeets]
    exact ⟨settle_told_iff ha, settle_eq_of_lt _⟩
  · have hasked := perform_asking hopens hmeets
    rcases Client.errorText_cases r.body with ⟨m, htells, hm, hshort⟩ | ⟨e, hlong, -⟩
    · obtain ⟨f, hsettle, htold⟩ := (settle_told_iff (IsCall.zones (t := t))).2 ⟨hstatus, hshort⟩
      obtain ⟨hresults, hfailure⟩ := discover_of_asking_error ix (hasked.trans hsettle)
      exact ⟨f, hresults, hfailure, fun _ => htold⟩
    · have hsettle : (zones c).settle (.ok r) = .error (Client.outOfRange e) := by
        rw [Api.Query.settle, Client.interpret_long hlong]
        rfl
      obtain ⟨hresults, hfailure⟩ := discover_of_asking_error ix (hasked.trans hsettle)
      exact ⟨_, hresults, hfailure, fun hshort => absurd hlong (hshort e)⟩
  · refine discover_of_asking_nil ix ?_
    rw [perform_asking hopens hmeets, settle_eq_of_lt _ hstatus, hnone]

/-! ### Two answers to a list of zones -/

open Api (Script blank)
open Api.Query (plain meets_plain)

def forbidden : Response := ⟨403, "\x7b\"message\": \"no\"\x7d"⟩

theorem read_forbidden : Json.read forbidden.body = .ok (.map [(.str "message", .str "no")]) :=
  eq_ok_of_toOption (by decide +kernel)

/-- A refusal is told of in its words, and a search over it says that there are no zones to be
had. -/
theorem refusals_told_forbidden :
    (∃ e, ((plain.zones (Script.always (.ok forbidden)).transport).perform blank).1 =
        .error (.api e) ∧ e.status? = some 403 ∧ e.message = "HTTP 403: no") ∧
      ∃ f, (discover (plain.provider (Script.always (.ok forbidden)).transport) .empty
        blank).results = [.failed (.unavailable f)] := by
  obtain ⟨hcalls, hsearches⟩ := refusals_told_iff
    (t := (Script.always (.ok forbidden)).transport) (fun _ _ => rfl) plain forbidden
  have hshort : ∀ e, ¬ HasLongInteger forbidden.body e := by
    rintro e ⟨hread, -⟩
    cases hread.symm.trans read_forbidden
  constructor
  · obtain ⟨f, hf, e, m, rfl, hstatus, htells, hmessage⟩ :=
      (hcalls .zones blank (meets_plain _ _)).1.2 ⟨by decide, hshort⟩
    refine ⟨e, hf, hstatus, hmessage.trans ?_⟩
    cases htells with
    | message hread h =>
        cases hread.symm.trans read_forbidden
        cases h
        decide +kernel
    | body h => cases h _ read_forbidden
  · obtain ⟨f, hresults, -, -⟩ := (hsearches .empty blank (meets_plain _ _)).1 (by decide)
    exact ⟨f, hresults⟩

/-- An answer that says that nothing has changed is an account without zones. -/
theorem refusals_not_told :
    ((plain.zones (Script.always (.ok ⟨304, ""⟩)).transport).perform blank).1 = .ok [] ∧
      (discover (plain.provider (Script.always (.ok ⟨304, ""⟩)).transport) .empty blank).results =
        [] := by
  have hsettle : (zones plain).settle (.ok ⟨304, ""⟩) = .ok [] := rfl
  constructor
  · rw [perform_of_meets .zones (fun _ _ => rfl) (meets_plain _ _), hsettle]
  · refine (discover_of_asking_nil .empty ?_).1
    rw [perform_asking (fun _ _ => rfl) (meets_plain _ _), hsettle]

end Store
end KubeAtlas
