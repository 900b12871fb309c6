import KubeAtlas.Proofs.Store.Answers
/-!
# Zones that fail

A zone whose clusters cannot be listed is passed over. But for the warning about it, a pass goes as
if the zone were not there: the other zones are asked, report and are entered as they would be, in
the same order. Only if the zones themselves cannot be listed does a pass say so, and then it asks
for nothing else.
-/

namespace KubeAtlas.Store

open Cluster (Index Report)
open Search (answers reports)

variable {past : List Cluster} {searches : List Search} {ix : Index} {σ : Type}

theorem flatMap_reports_answered (script : List Outcome) :
    (script.filter Outcome.isAnswered).flatMap Outcome.reports =
      script.flatMap Outcome.reports := by
  induction script with
  | nil => rfl
  | cons o script ih =>
      rcases o with ⟨z, e | found⟩
      · exact ih
      · exact congrArg (Outcome.reports ⟨z, .ok found⟩ ++ ·) ih

def requests (p : Provider σ) (ix : Index) (w : World σ) : List Call :=
  (discover p.watched ix w.watched).world.outside.2

theorem requests_of_answers {p : Provider σ} {w : World σ} {script : List Outcome}
    (h : answers p w = .ok script) (hcomplete : (discover p ix w).failure = none) :
    requests p ix w = .zones :: script.map fun o => .clusters o.zone.endpoint := by
  obtain ⟨hwatched, hcalls⟩ := Search.answers_watched p w
  have hpass := discover_of_answers ix h
  have hpassed := discover_of_answers ix (hwatched.trans h)
  rw [hpass.failure] at hcomplete
  rw [requests, hpassed.world (hpassed.failure.trans hcomplete), hcalls, h]

theorem requests_of_unanswered {p : Provider σ} {w : World σ} {e : Failure} (ix : Index)
    (h : answers p w = .error e) : requests p ix w = [.zones] := by
  obtain ⟨hwatched, hcalls⟩ := Search.answers_watched p w
  rw [requests, discover_of_unanswered ix (hwatched.trans h), hcalls, h]

/-- **A zone that fails leaves nothing but a warning.** In every state, a pass shows and enters what
a pass over the zones that answer does, and shows only paths. If all reports can be reports, as text
can, it is complete; it has then asked for the zones once and for the clusters of each zone once, in
order, and recorded one warning for each zone that failed, in order. If the zones cannot be listed,
the one result says so, nothing else is asked for and the index stays as it is. -/
theorem failing_zones_passed_over (h : Reached past searches ix) (p : Provider σ) (w : World σ) :
    (∀ script, answers p w = .ok script →
      (∀ {τ : Type} (q : Provider τ) (v : World τ),
        answers q v = .ok (script.filter Outcome.isAnswered) →
          (discover p ix w).results = (discover q ix v).results ∧
            (discover p ix w).failure = (discover q ix v).failure ∧
            (discover p ix w).index = (discover q ix v).index) ∧
      (∀ r ∈ (discover p ix w).results, ∃ path, r = .path path) ∧
      ((∀ c ∈ past ++ script.flatMap Outcome.reports, c.IsKeyed) →
        (discover p ix w).failure = none) ∧
      ((discover p ix w).failure = none →
        requests p ix w = .zones :: script.map fun o => .clusters o.zone.endpoint) ∧
      ((discover p ix w).failure = none → p.IsDiscreet →
        (discover p ix w).world.journal.graves =
          w.journal.graves ++ script.filterMap Outcome.warning?)) ∧
    ∀ e, answers p w = .error e →
      (discover p ix w).results = [.failed (.unavailable e)] ∧ (discover p ix w).failure = none ∧
        (discover p ix w).index = ix ∧ requests p ix w = [.zones] := by
  constructor
  · intro script hscript
    have hpass := discover_of_answers ix hscript
    refine ⟨fun q v hanswered => ?_, fun r hr => ?_, fun hkeyed => ?_,
      requests_of_answers hscript, fun hcomplete hdiscreet => ?_⟩
    · have hother := discover_of_answers ix hanswered
      rw [flatMap_reports_answered] at hother
      exact ⟨hpass.results.trans hother.results.symm, hpass.failure.trans hother.failure.symm,
        hpass.index.trans hother.index.symm⟩
    · rw [hpass.results] at hr
      obtain ⟨c, -, rfl⟩ := List.mem_map.1 hr
      exact ⟨c.path, rfl⟩
    · obtain ⟨hpast, hreports⟩ := List.forall_mem_append.1 hkeyed
      rw [hpass.failure]
      exact Index.takes_iff_refused.1 (h.takes hpast hreports)
    · rw [hpass.world hcomplete, Search.graves_concluded hdiscreet hscript]
  · intro e he
    have hrequests := requests_of_unanswered ix he
    rw [discover_of_unanswered ix he]
    exact ⟨rfl, rfl, rfl, hrequests⟩

theorem isDiscreet_scripted (given : Except Failure (List Outcome)) :
    (scripted given).IsDiscreet where
  zones := Action.isDiscreet_liftM _
  clusters endpoint w := by
    obtain ⟨_ | ⟨answer, rest⟩, journal⟩ := w <;> rfl

def halting : List Outcome :=
  [⟨⟨.str "x", .str "https://x"⟩, .error (.outside .timeout)⟩,
    ⟨⟨.str "z", .str "https://z"⟩, .ok [⟨.str "1", .str "a"⟩, ⟨.str "2", .str "b"⟩]⟩,
    ⟨⟨.str "x", .str "https://y"⟩, .error (.api (.refused 403 "no"))⟩]

theorem failing_zones_passed_over_two :
    (let pass := discover (scripted (.ok halting)) .empty (unsaid (.ok halting) .quiet)
      let answering := halting.filter Outcome.isAnswered
      pass.results = [.path "z/a", .path "z/b"] ∧ pass.failure = none ∧
        pass.results = (discover (scripted (.ok answering)) .empty
          (unsaid (.ok answering) .quiet)).results ∧
        requests (scripted (.ok halting)) .empty (unsaid (.ok halting) .quiet) =
          [.zones, .clusters (.str "https://x"), .clusters (.str "https://z"),
            .clusters (.str "https://y")] ∧
        pass.world.journal.graves =
          [note .warning "failed to list SKS clusters for zone x: ",
            note .warning "failed to list SKS clusters for zone x: HTTP 403: no"]) ∧
    (discover (scripted (.error (.outside .timeout))) .empty
      (unsaid (.error (.outside .timeout)) .quiet)).results =
        [.failed (.unavailable (.outside .timeout))] := by
  have hanswers := answers_scripted (.ok halting) .quiet
  obtain ⟨hsame, -, hcomplete, hrequests, hgraves⟩ :=
    (failing_zones_passed_over .initial _ _).1 _ hanswers
  have hnone := hcomplete (List.forall_mem_map.2 fun r _ => Report.isKeyed r :
    ∀ c ∈ [(⟨"1", "a", "z", "https://z"⟩ : Report), ⟨"2", "b", "z", "https://z"⟩].map
      Report.cluster, c.IsKeyed)
  refine ⟨⟨?_, hnone, (hsame _ _ (answers_scripted _ .quiet)).1, hrequests hnone, ?_⟩,
    ((failing_zones_passed_over .initial _ _).2 _ (answers_scripted _ .quiet)).1⟩
  · rw [(discover_of_answers _ hanswers).results]
    rfl
  · rw [hgraves hnone (isDiscreet_scripted _)]
    decide

end KubeAtlas.Store
