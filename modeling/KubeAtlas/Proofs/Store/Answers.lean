import KubeAtlas.Proofs.Journal
import KubeAtlas.Proofs.Store.Reach
/-!
# What a pass is answered

A provider may answer differently at every request. A pass asks for the zones once and then for the
clusters of each zone once, in order, so that all it sees of the provider is one list: the zones,
each with what it answered. `answers` is that list, and whatever a pass shows and leaves in an index
is a function of it (`discover_of_answers`), whichever provider gave the answers.

Every list of zones and answers is the list of some provider (`answers_scripted`). A pass is watched
in two ways: by the requests that it makes, and by the warnings that it records.
-/

namespace KubeAtlas

namespace Store

open Cluster (Index)

/-- A zone and what it answers when it is asked for its clusters. -/
structure Outcome where
  zone : Zone
  answer : Except Failure (List Listing)

namespace Outcome

def reports (o : Outcome) : List Cluster :=
  match o.answer with
  | .ok found => found.map (Listing.inZone o.zone)
  | .error _ => []

def isAnswered (o : Outcome) : Bool :=
  match o.answer with
  | .ok _ => true
  | .error _ => false

def warning? (o : Outcome) : Option Entry :=
  match o.answer with
  | .ok _ => none
  | .error e => some (note .warning (Failure.zone o.zone.name e.message).message)

end Outcome

namespace Search

variable {σ : Type}

/-- What the zones answer, each asked in the world that the zones before it have left. -/
def outcomes (p : Provider σ) : List Zone → World σ → List Outcome
  | [], _ => []
  | z :: rest, w =>
    let (answer, v) := (p.clusters z.endpoint).perform w
    ⟨z, answer⟩ :: outcomes p rest (passed z answer v)

/-- What a pass is answered: that the zones cannot be listed, or the zones and what each answers. -/
def answers (p : Provider σ) (w : World σ) : Except Failure (List Outcome) :=
  match p.zones.perform (w.record (note .debug "Exoscale: start search")) with
  | (.error e, _) => .error e
  | (.ok zones, w) => .ok (outcomes p zones w)

theorem zone_outcomes (p : Provider σ) (zones : List Zone) (w : World σ) :
    (outcomes p zones w).map Outcome.zone = zones := by
  induction zones generalizing w with
  | nil => rfl
  | cons z rest ih =>
      rw [outcomes, List.map_cons, ih]

theorem asked_of_mem_outcomes {p : Provider σ} {zones : List Zone} {w : World σ} {o : Outcome}
    (h : o ∈ outcomes p zones w) :
    o.zone ∈ zones ∧ ∃ v, ((p.clusters o.zone.endpoint).perform v).1 = o.answer := by
  induction zones generalizing w with
  | nil => cases h
  | cons z rest ih =>
      rw [outcomes] at h
      rcases List.mem_cons.1 h with rfl | h
      · exact ⟨List.mem_cons_self, w, rfl⟩
      · obtain ⟨hzone, hanswer⟩ := ih h
        exact ⟨List.mem_cons_of_mem z hzone, hanswer⟩

theorem walk_eq (p : Provider σ) (zones : List Zone) (w : World σ) :
    walk p zones w = (outcomes p zones w).flatMap Outcome.reports := by
  induction zones generalizing w with
  | nil => rfl
  | cons z rest ih =>
      rw [walk, outcomes]
      rcases (p.clusters z.endpoint).perform w with ⟨e | _ | ⟨c, found⟩, v⟩ <;>
        simp only [ih, List.flatMap_cons, Outcome.reports, List.map_nil, List.nil_append, passed]

theorem reports_eq (p : Provider σ) (w : World σ) :
    reports p w = match answers p w with
      | .ok script => script.flatMap Outcome.reports
      | .error _ => [] := by
  rw [reports, answers]
  rcases p.zones.perform (w.record (note .debug "Exoscale: start search")) with ⟨e | zones, v⟩
  · rfl
  · exact walk_eq p zones v

theorem reports_of_answers {p : Provider σ} {w : World σ} {script : List Outcome}
    (h : answers p w = .ok script) : reports p w = script.flatMap Outcome.reports := by
  rw [reports_eq, h]

end Search

variable {σ : Type}

open Search (answers)

theorem discover_of_answers {p : Provider σ} {w : World σ} {script : List Outcome} (ix : Index)
    (h : answers p w = .ok script) :
    Search.Follows ix (script.flatMap Outcome.reports) (Search.concluded p w)
      (discover p ix w) := by
  rw [← Search.reports_of_answers h]
  rw [answers] at h
  rcases hzones : p.zones.perform (w.record (note .debug "Exoscale: start search"))
    with ⟨e | zones, v⟩
  · rw [hzones] at h
    cases h
  · exact discover_follows ix hzones

theorem discover_of_unanswered {p : Provider σ} {w : World σ} {e : Failure} (ix : Index)
    (h : answers p w = .error e) :
    discover p ix w = ⟨[.failed (.unavailable e)], none, .ended, ix, Search.concluded p w⟩ := by
  rw [answers] at h
  rcases hzones : p.zones.perform (w.record (note .debug "Exoscale: start search"))
    with ⟨d | zones, v⟩
  · rw [hzones, Except.error.injEq] at h
    rw [discover_unavailable ix hzones, Search.concluded, hzones, h]
  · rw [hzones] at h
    cases h

/-! ### A provider for every script -/

def nextAnswer (w : World (List (Except Failure (List Listing)))) :
    Except Failure (List Listing) × World (List (Except Failure (List Listing))) :=
  match w.outside with
  | [] => (.ok [], w)
  | answer :: rest => (answer, { w with outside := rest })

def scripted (given : Except Failure (List Outcome)) :
    Provider (List (Except Failure (List Listing))) where
  zones := liftM (given.map (List.map Outcome.zone))
  clusters _ := ExceptT.mk nextAnswer
  kubeconfig _ _ _ := pure (.str "")

def unsaid (given : Except Failure (List Outcome)) (j : Journal) :
    World (List (Except Failure (List Listing))) :=
  ⟨match given with
    | .ok script => script.map Outcome.answer
    | .error _ => [], j⟩

theorem outcomes_scripted (given : Except Failure (List Outcome)) (script : List Outcome)
    (w : World (List (Except Failure (List Listing))))
    (hw : w.outside = script.map Outcome.answer) :
    Search.outcomes (scripted given) (script.map Outcome.zone) w = script := by
  induction script generalizing w with
  | nil => rfl
  | cons o script ih =>
      have hperform : ((scripted given).clusters o.zone.endpoint).perform w =
          (o.answer, { w with outside := script.map Outcome.answer }) := by
        change nextAnswer w = _
        rw [nextAnswer, hw]
        rfl
      rw [List.map_cons, Search.outcomes, hperform]
      exact congrArg (o :: ·) (ih _ (Search.outside_passed o.zone o.answer _))

theorem answers_scripted (given : Except Failure (List Outcome)) (j : Journal) :
    answers (scripted given) (unsaid given j) = given := by
  rw [answers, scripted, Action.perform_liftM]
  cases given with
  | error e => rfl
  | ok script => exact congrArg _ (outcomes_scripted (.ok script) script _ rfl)

/-! ### The requests of a pass -/

namespace Search

theorem outcomes_watched (p : Provider σ) (zones : List Zone) (w : World (σ × List Call)) :
    outcomes p.watched zones w = outcomes p zones w.unwatched ∧
      (walked p.watched zones w).outside.2 =
        w.outside.2 ++ zones.map fun z => .clusters z.endpoint := by
  induction zones generalizing w with
  | nil => exact ⟨rfl, (List.append_nil _).symm⟩
  | cons z rest ih =>
      obtain ⟨v, hperform, hunwatched, hcalls⟩ := Action.exists_perform_watched
        (.clusters z.endpoint) (p.clusters z.endpoint) w
      change (p.watched.clusters z.endpoint).perform w = _ at hperform
      obtain ⟨houtcomes, hrest⟩ := ih (passed z ((p.clusters z.endpoint).perform w.unwatched).1 v)
      rw [unwatched_passed, hunwatched] at houtcomes
      rw [outside_passed, hcalls] at hrest
      constructor
      · rw [outcomes, outcomes, hperform]
        exact congrArg _ houtcomes
      · rw [walked, hperform, hrest, List.map_cons, List.append_assoc]
        rfl

/-- What a pass is answered does not depend on whether the provider is watched, and the requests are
for the zones and for the clusters of each. -/
theorem answers_watched (p : Provider σ) (w : World σ) :
    answers p.watched w.watched = answers p w ∧
      (concluded p.watched w.watched).outside.2 = .zones :: match answers p w with
        | .ok script => script.map fun o => .clusters o.zone.endpoint
        | .error _ => [] := by
  obtain ⟨v, hperform, hunwatched, hcalls⟩ := Action.exists_perform_watched .zones p.zones
    (w.watched.record (note .debug "Exoscale: start search"))
  change p.watched.zones.perform _ = _ at hperform
  rw [World.unwatched_record, World.unwatched_watched] at hperform hunwatched
  change v.outside.2 = [.zones] at hcalls
  rw [answers, answers, concluded, hperform]
  generalize p.zones.perform (w.record (note .debug "Exoscale: start search")) = listed
    at hunwatched ⊢
  rcases listed with ⟨e | zones, u⟩
  · exact ⟨rfl, hcalls⟩
  · obtain rfl : v.unwatched = u := hunwatched
    obtain ⟨houtcomes, hrest⟩ := outcomes_watched p zones v
    refine ⟨congrArg _ houtcomes, ?_⟩
    have hzones : (outcomes p zones v.unwatched).map (fun o => Call.clusters o.zone.endpoint) =
        zones.map fun z => .clusters z.endpoint := by
      conv => rhs; rw [← zone_outcomes p zones v.unwatched, List.map_map]
      rfl
    cases zones with
    | nil => exact hcalls
    | cons z rest =>
        simp only [hzones]
        rw [hrest, hcalls]
        rfl

end Search

/-! ### The warnings of a pass -/

theorem graves_record_debug (w : World σ) (message : String) :
    (w.record (note .debug message)).journal.graves = w.journal.graves :=
  Journal.graves_record _ _

theorem Search.graves_passed (z : Zone) (answer : Except Failure (List Listing)) (w : World σ) :
    (Search.passed z answer w).journal.graves =
      w.journal.graves ++ (Outcome.warning? ⟨z, answer⟩).toList := by
  have hgrave : (Search.remarks z answer).filter (fun e => e.level.isGrave) =
      (Outcome.warning? ⟨z, answer⟩).toList := by
    rcases answer with e | _ | ⟨c, found⟩
    · rfl
    · rfl
    · exact List.filter_eq_nil_iff.2 (List.forall_mem_map.2 fun _ _ => Bool.false_ne_true)
  rw [Search.passed_eq, World.graves_recordAll, hgrave]

theorem Search.graves_walked {p : Provider σ} (hp : p.IsDiscreet) (zones : List Zone)
    (w : World σ) : (Search.walked p zones w).journal.graves =
      w.journal.graves ++ (Search.outcomes p zones w).filterMap Outcome.warning? := by
  induction zones generalizing w with
  | nil => exact (List.append_nil _).symm
  | cons z rest ih =>
      rw [Search.walked, Search.outcomes, ih, Search.graves_passed, hp.clusters, List.append_assoc]
      rw [List.filterMap_cons]
      cases Outcome.warning? ⟨z, ((p.clusters z.endpoint).perform w).1⟩ <;> rfl

/-- The warnings of a complete pass are those about the zones that fail, in order. -/
theorem Search.graves_concluded {p : Provider σ} (hp : p.IsDiscreet) {w : World σ}
    {script : List Outcome} (h : answers p w = .ok script) :
    (Search.concluded p w).journal.graves =
      w.journal.graves ++ script.filterMap Outcome.warning? := by
  have hzones := hp.zones (w.record (note .debug "Exoscale: start search"))
  rw [graves_record_debug] at hzones
  rw [answers] at h
  rw [Search.concluded]
  rcases hperform : p.zones.perform (w.record (note .debug "Exoscale: start search"))
    with ⟨e | zones, v⟩
  · rw [hperform] at h
    cases h
  · rw [hperform] at hzones h
    rw [Except.ok.injEq] at h
    subst h
    cases zones with
    | nil => exact (graves_record_debug v _).trans (hzones.trans (List.append_nil _).symm)
    | cons z rest =>
        simp only
        rw [Search.graves_walked hp, hzones]

end Store
end KubeAtlas
