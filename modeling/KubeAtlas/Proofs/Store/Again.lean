import KubeAtlas.Proofs.Store.Answers
import KubeAtlas.Proofs.Store.Served
/-!
# Searching twice

A pass that is answered as the one before it shows the same results and changes nothing that the
index answers. It does write to the index: a cluster that is reported twice in a pass leaves its
first place and gets it back on the way. That the second round ends where the first one did is a
fact about entering reports (`Index.enterAll_again`), and what remains here is that a pass does
nothing to the index but enter its reports.
-/

namespace KubeAtlas.Store

open Cluster (Index Report)
open Search (answers reports)

variable {past : List Cluster} {searches : List Search} {ix : Index} {σ τ : Type}

/-- **Searching is idempotent.** In every state, a pass that gets the answers of the pass before it
shows the same results, ends in the same way, and leaves an index that answers alike. Identifiers,
zones and names may repeat in any way, as long as they can be keys, as text can. If that held of all
earlier reports too, neither pass is stopped. -/
theorem discover_again (h : Reached past searches ix) {p : Provider σ} {w : World σ}
    {q : Provider τ} {v : World τ} (hsame : answers q v = answers p w)
    (hkeyed : ∀ c ∈ reports p w, c.IsKeyed) :
    (discover q (discover p ix w).index v).results = (discover p ix w).results ∧
      (discover q (discover p ix w).index v).failure = (discover p ix w).failure ∧
      (discover q (discover p ix w).index v).index.Alike (discover p ix w).index ∧
      ((∀ c ∈ past, c.IsKeyed) → (discover p ix w).failure = none) := by
  cases hanswers : answers p w with
  | error e =>
      rw [hanswers] at hsame
      rw [discover_of_unanswered _ hsame, discover_of_unanswered ix hanswers]
      exact ⟨rfl, rfl, .of_maps rfl fun _ => rfl, fun _ => rfl⟩
  | ok script =>
      rw [hanswers] at hsame
      rw [Search.reports_of_answers hanswers] at hkeyed
      have hfirst := discover_of_answers ix hanswers
      have hsecond := discover_of_answers (discover p ix w).index hsame
      obtain ⟨htaken, hrefused, halike⟩ := Index.enterAll_again h.sound hkeyed
      rw [← hfirst.index] at htaken hrefused halike
      refine ⟨?_, ?_, ?_, fun hpast => ?_⟩
      · rw [hsecond.results, hfirst.results, htaken]
      · rw [hsecond.failure, hfirst.failure, hrefused]
      · rw [hsecond.index]
        exact halike
      · rw [hfirst.failure]
        exact Index.takes_iff_refused.1 (h.takes hpast hkeyed)

/-- Two clusters with one name, the first of which is reported again under another, and a zone that
fails; the second cluster has been known under another name. -/
def crowded : List Outcome :=
  [⟨⟨.str "z", .str "https://z"⟩,
      .ok [⟨.str "1", .str "a"⟩, ⟨.str "2", .str "a"⟩, ⟨.str "1", .str "b"⟩]⟩,
    ⟨⟨.str "y", .str "https://y"⟩, .error (.outside .timeout)⟩]

theorem discover_again_crowded : ∃ (past : List Cluster) (searches : List Search) (ix : Index),
    Reached past searches ix ∧ past = [⟨.str "2", .str "b", .str "z", .str "https://z"⟩] ∧
      let pass := discover (scripted (.ok crowded)) ix (unsaid (.ok crowded) .quiet)
      let again := discover (scripted (.ok crowded)) pass.index (unsaid (.ok crowded) .quiet)
      again.results = [.path "z/a", .path "z/a", .path "z/b"] ∧ again.failure = none ∧
        again.index.Alike pass.index := by
  have hreached := Reached.first (oneZone [⟨.str "2", .str "b"⟩]) ⟨(), .quiet⟩
  have hanswers := answers_scripted (.ok crowded) .quiet
  have hreports : reports (scripted (.ok crowded)) (unsaid (.ok crowded) .quiet) =
      [(⟨"1", "a", "z", "https://z"⟩ : Report), ⟨"2", "a", "z", "https://z"⟩,
        ⟨"1", "b", "z", "https://z"⟩].map Report.cluster := Search.reports_of_answers hanswers
  have hkeyed :
      ∀ c ∈ reports (scripted (.ok crowded)) (unsaid (.ok crowded) .quiet), c.IsKeyed := by
    rw [hreports]
    exact List.forall_mem_map.2 fun r _ => r.isKeyed
  obtain ⟨hresults, hfailure, halike, hcomplete⟩ :=
    discover_again hreached (q := scripted (.ok crowded)) rfl hkeyed
  refine ⟨_, _, _, hreached, rfl, ?_, hfailure.trans (hcomplete ?_), halike⟩
  · rw [hresults, (discover_of_answers _ hanswers).results]
    rfl
  · exact List.forall_mem_singleton.2 (Report.isKeyed ⟨"2", "b", "z", "https://z"⟩)

end KubeAtlas.Store
