import KubeAtlas.Proofs.Coupling
import KubeAtlas.Proofs.Store.Queue
import KubeAtlas.Proofs.Store.Served
/-!
# A store over two providers

Over coupled providers a search shows the same results and leaves the same index, one step at a time
and to its end, and a path is served alike. All that a store does in a world of its own accord is to
record messages, so it is enough that the two worlds stay related when the same message is recorded
in both.
-/

namespace KubeAtlas

namespace Store

open Cluster (Index)

variable {σ τ : Type} {R : World σ → World τ → Prop} {same : Prop} {p : Provider σ} {q : Provider τ}

/-- Two steps that show the same and leave the same behind. -/
structure Step.Alike (R : World σ → World τ → Prop) (st : Step σ) (su : Step τ) : Prop where
  result : st.result = su.result
  search : st.search = su.search
  index : st.index = su.index
  world : R st.world su.world

structure Pass.Alike (R : World σ → World τ → Prop) (a : Pass σ) (b : Pass τ) : Prop where
  results : a.results = b.results
  failure : a.failure = b.failure
  index : a.index = b.index
  world : R a.world b.world

section Coupled

variable (hrecord : ∀ w v e, R w v → R (w.record e) (v.record e)) (hp : p.Coupled R same q)
include hrecord

theorem report_alike (zone : Zone) (c : Listing) (found : List Listing) (rest : List Zone)
    (ix : Index) {w : World σ} {v : World τ} (h : R w v) :
    (Search.report zone c found rest ix w).Alike R (Search.report zone c found rest ix v) := by
  rw [Search.report, Search.report]
  rcases ix.add ⟨c.id, c.name, zone.name, zone.endpoint⟩ with ⟨jx, _ | e⟩
  · exact ⟨rfl, rfl, rfl, hrecord w v _ h⟩
  · exact ⟨rfl, rfl, rfl, h⟩

include hp

theorem fromZones_alike (zones : List Zone) (ix : Index) {w : World σ} {v : World τ} (h : R w v) :
    (Search.fromZones p ix zones w).Alike R (Search.fromZones q ix zones v) := by
  induction zones generalizing w v with
  | nil => exact ⟨rfl, rfl, rfl, h⟩
  | cons z rest ih =>
      rw [Search.fromZones, Search.fromZones]
      have hanswer := hp.clusters z.endpoint w v h
      generalize (p.clusters z.endpoint).perform w = first at hanswer ⊢
      generalize (q.clusters z.endpoint).perform v = second at hanswer ⊢
      obtain ⟨r, w'⟩ := first
      obtain ⟨s, v'⟩ := second
      obtain ⟨rfl, hleft⟩ : r = s ∧ R w' v' := hanswer
      rcases r with e | _ | ⟨c, found⟩
      · exact ih (hrecord w' v' _ hleft)
      · exact ih (hrecord w' v' _ hleft)
      · exact report_alike hrecord z c found rest ix hleft

theorem next_alike (s : Search) (ix : Index) {w : World σ} {v : World τ} (h : R w v) :
    (Search.next p s ix w).Alike R (Search.next q s ix v) := by
  cases s with
  | unstarted =>
      rw [Search.next, Search.start, Search.next, Search.start]
      have hanswer := hp.zones _ _ (hrecord w v (note .debug "Exoscale: start search") h)
      generalize p.zones.perform _ = first at hanswer ⊢
      generalize q.zones.perform _ = second at hanswer ⊢
      obtain ⟨r, w'⟩ := first
      obtain ⟨s, v'⟩ := second
      obtain ⟨rfl, hleft⟩ : r = s ∧ R w' v' := hanswer
      rcases r with e | _ | ⟨z, rest⟩
      · exact ⟨rfl, rfl, rfl, hleft⟩
      · exact ⟨rfl, rfl, rfl, hrecord w' v' _ hleft⟩
      · exact fromZones_alike hrecord hp (z :: rest) ix hleft
  | reporting zone found rest =>
      cases found with
      | nil => exact fromZones_alike hrecord hp rest ix h
      | cons c found => exact report_alike hrecord zone c found rest ix h
  | ended => exact ⟨rfl, rfl, rfl, h⟩

theorem drain_alike {s : Search} {ix : Index} {w : World σ} (hends : Search.Ends p s ix w)
    {v : World τ} (h : R w v) : (Search.drain p s ix w).Alike R (Search.drain q s ix v) := by
  induction hends generalizing v with
  | @intro s ix w _ ih =>
      have hnext := next_alike hrecord hp s ix h
      rw [Search.drain_next, Search.drain_next]
      rcases hfirst : Search.next p s ix w with ⟨r, t, jx, w'⟩
      rcases hsecond : Search.next q s ix v with ⟨r', t', jx', v'⟩
      rw [hfirst, hsecond] at hnext
      obtain ⟨hresult, hsearch, hindex, hleft⟩ := hnext
      subst hresult hsearch hindex
      rcases r with e | _ | r
      · exact ⟨rfl, rfl, rfl, hleft⟩
      · exact ⟨rfl, rfl, rfl, hleft⟩
      · obtain ⟨hresults, hfailure, hindex, hworld⟩ := ih r t jx w' hfirst hleft
        exact ⟨congrArg (r :: ·) hresults, hfailure, hindex, hworld⟩

theorem discover_alike (ix : Index) {w : World σ} {v : World τ} (h : R w v) :
    (discover p ix w).Alike R (discover q ix v) :=
  drain_alike hrecord hp (Search.ends p .unstarted ix w) h

end Coupled

theorem kubeconfig_coupled (hp : p.Coupled R same q) (write : Writer) (ix : Index) (path : String) :
    Action.Coupled R (fun r s => same → r = s) (kubeconfig p write ix path)
      (kubeconfig q write ix path) := by
  intro w v h
  rw [perform_kubeconfig, perform_kubeconfig]
  rcases locate ix path with e | ⟨c, name⟩
  · exact ⟨fun _ => rfl, h⟩
  · have hanswer := hp.kubeconfig c.endpoint c.id fullGrant w v h
    simp only
    generalize (p.kubeconfig c.endpoint c.id fullGrant).perform w = first at hanswer ⊢
    generalize (q.kubeconfig c.endpoint c.id fullGrant).perform v = second at hanswer ⊢
    obtain ⟨r, w'⟩ := first
    obtain ⟨s, v'⟩ := second
    obtain ⟨hsame, hleft⟩ := hanswer
    refine ⟨fun h => ?_, ?_⟩
    · obtain rfl : r = s := hsame h
      cases r <;> rfl
    · cases r <;> cases s <;> exact hleft

end Store
end KubeAtlas
