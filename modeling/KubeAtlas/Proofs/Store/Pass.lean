import KubeAtlas.Proofs.Cluster.Replay
import KubeAtlas.Proofs.Provider
import KubeAtlas.Store.Search
/-!
# A pass as a walk

A search is lazy: it hands out one path at a time and keeps what is left. Run to its end it is a
walk through the zones in order, and what it reports does not depend on the index at all. `reports`
is that walk. A pass enters its reports one after the other and shows the paths of those that are
taken (`discover_follows`). It is complete exactly when the index takes them all; `discover_cases`
says so, and later proofs reason about the list of reports instead of the stream.
-/

namespace KubeAtlas

namespace Store

open Cluster (Index)

def Listing.inZone (zone : Zone) (c : Listing) : Cluster := ⟨c.id, c.name, zone.name, zone.endpoint⟩

namespace Search

variable {σ : Type}

def noted (zone : Zone) (c : Listing) (w : World σ) : World σ :=
  w.record (note .debug (s!"Discovered SKS cluster name: {c.name.text} and id: {c.id.text} " ++
    s!"in zone {zone.name.text}"))

/-- What the zones report, in order. -/
def walk (p : Provider σ) : List Zone → World σ → List Cluster
  | [], _ => []
  | z :: rest, w =>
    match (p.clusters z.endpoint).perform w with
    | (.error e, w) =>
      walk p rest (w.record (note .warning (Failure.zone z.name e.message).message))
    | (.ok [], w) =>
      walk p rest (w.record (note .debug s!"No SKS clusters found in zone {z.name.text}"))
    | (.ok found, w) =>
      found.map (Listing.inZone z) ++ walk p rest (found.foldl (fun w c => noted z c w) w)

/-- What is left to be reported of a search that has begun. -/
def pending (p : Provider σ) (zone : Zone) (found : List Listing) (rest : List Zone)
    (w : World σ) : List Cluster :=
  found.map (Listing.inZone zone) ++ walk p rest (found.foldl (fun w c => noted zone c w) w)

def passed (z : Zone) : Except Failure (List Listing) → World σ → World σ
  | .error e, w => w.record (note .warning (Failure.zone z.name e.message).message)
  | .ok [], w => w.record (note .debug s!"No SKS clusters found in zone {z.name.text}")
  | .ok found, w => found.foldl (fun w c => noted z c w) w

/-- What is recorded about a zone that gave an answer. -/
def remarks (z : Zone) : Except Failure (List Listing) → List Entry
  | .error e => [note .warning (Failure.zone z.name e.message).message]
  | .ok [] => [note .debug s!"No SKS clusters found in zone {z.name.text}"]
  | .ok found => found.map fun c => note .debug
      (s!"Discovered SKS cluster name: {c.name.text} and id: {c.id.text} " ++
        s!"in zone {z.name.text}")

theorem passed_eq (z : Zone) (answer : Except Failure (List Listing)) (w : World σ) :
    passed z answer w = w.recordAll (remarks z answer) := by
  rcases answer with e | _ | ⟨c, found⟩
  · rfl
  · rfl
  · exact (List.foldl_map ..).symm

theorem outside_passed (z : Zone) (answer : Except Failure (List Listing)) (w : World σ) :
    (passed z answer w).outside = w.outside := by
  rw [passed_eq, World.outside_recordAll]

theorem unwatched_passed (z : Zone) (answer : Except Failure (List Listing))
    (w : World (σ × List Call)) : (passed z answer w).unwatched = passed z answer w.unwatched := by
  rw [passed_eq, passed_eq, World.unwatched_recordAll]

def walked (p : Provider σ) : List Zone → World σ → World σ
  | [], w => w
  | z :: rest, w =>
    let (answer, v) := (p.clusters z.endpoint).perform w
    walked p rest (passed z answer v)

/-- A pass that enters some reports and shows the paths of those that are taken. It leaves a world
that is known if it is complete. -/
structure Follows (ix : Index) (cs : List Cluster) (left : World σ) (pass : Pass σ) : Prop where
  results : pass.results = (ix.enterAll cs).taken.map fun c => .path c.path
  failure : pass.failure = (ix.enterAll cs).refused
  search : pass.search = .ended
  index : pass.index = (ix.enterAll cs).index
  world : pass.failure = none → pass.world = left

/-- A pass that enters some reports: complete, or stopped at a report that the index refuses. -/
def Enters (ix : Index) (cs : List Cluster) (pass : Pass σ) : Prop :=
  ix.Takes cs ∧ pass.results = cs.map (fun c => .path c.path) ∧ pass.failure = none ∧
      pass.search = .ended ∧ pass.index = ix.addAll cs ∨
    ¬ ix.Takes cs ∧ pass.failure ≠ none

/-! ### One step of a search that is run to its end -/

theorem drain_reporting (p : Provider σ) (zone : Zone) (found : List Listing) (rest : List Zone)
    (ix : Index) (w : World σ) :
    drain p (.reporting zone found rest) ix w = finish p zone found rest ix w := by
  rw [finish]
  split
  · next hs => rw [drain, hs]
  · next s jx v hother hs =>
      rw [drain, hs]
      cases s with
      | unstarted => rfl
      | reporting zone found rest => exact absurd rfl (hother zone found rest)
      | ended => rfl
  · next hs => rw [drain, hs]
  · next hs => rw [drain, hs]

theorem next_cons (p : Provider σ) (zone : Zone) (c : Listing) (found : List Listing)
    (rest : List Zone) (ix : Index) (w : World σ) :
    next p (.reporting zone (c :: found) rest) ix w = match ix.add (Listing.inZone zone c) with
      | (ix, some e) => ⟨.error e, .ended, ix, w⟩
      | (ix, none) => ⟨.ok (some (.path (Listing.inZone zone c).path)),
          .reporting zone found rest, ix, noted zone c w⟩ := rfl

theorem drain_cons (p : Provider σ) (zone : Zone) (c : Listing) (found : List Listing)
    (rest : List Zone) (ix : Index) (w : World σ) :
    drain p (.reporting zone (c :: found) rest) ix w = match ix.add (Listing.inZone zone c) with
      | (ix, some e) => ⟨[], some e, .ended, ix, w⟩
      | (ix, none) => (drain p (.reporting zone found rest) ix (noted zone c w)).after
          (.path (Listing.inZone zone c).path) := by
  rw [drain, next_cons]
  rcases ix.add (Listing.inZone zone c) with ⟨jx, _ | e⟩
  · simp only [drain_reporting]
  · rfl

theorem drain_zone (p : Provider σ) (zone z : Zone) (rest : List Zone) (ix : Index) (w : World σ) :
    drain p (.reporting zone [] (z :: rest)) ix w = match (p.clusters z.endpoint).perform w with
      | (.error e, w) => drain p (.reporting zone [] rest) ix
          (w.record (note .warning (Failure.zone z.name e.message).message))
      | (.ok [], w) => drain p (.reporting zone [] rest) ix
          (w.record (note .debug s!"No SKS clusters found in zone {z.name.text}"))
      | (.ok found, w) => drain p (.reporting z found rest) ix w := by
  rw [drain]
  simp only [next, fromZones]
  rcases (p.clusters z.endpoint).perform w with ⟨e | _ | ⟨c, found⟩, v⟩ <;> rfl

/-! ### The whole of a search -/

theorem Follows.after {ix jx : Index} {c : Cluster} {cs : List Cluster} {left : World σ}
    {pass : Pass σ} (hadd : ix.add c = (jx, none)) (h : Follows jx cs left pass) :
    Follows ix (c :: cs) left (pass.after (.path c.path)) := by
  have henter := Index.enterAll_cons_taken cs hadd
  constructor
  · rw [henter, Pass.after, h.results, List.map_cons]
  · rw [henter, Pass.after, h.failure]
  · exact h.search
  · rw [henter, Pass.after, h.index]
  · exact h.world

/-- If the zones that are left are walked through, so are they after some clusters. -/
theorem follows_found (p : Provider σ) (zone : Zone) (rest : List Zone)
    (hrest : ∀ (ix : Index) (w : World σ),
      Follows ix (walk p rest w) (walked p rest w) (drain p (.reporting zone [] rest) ix w))
    (found : List Listing) (ix : Index) (w : World σ) :
    Follows ix (pending p zone found rest w)
      (walked p rest (found.foldl (fun w c => noted zone c w) w))
      (drain p (.reporting zone found rest) ix w) := by
  induction found generalizing ix w with
  | nil => exact hrest ix w
  | cons c found ih =>
      have hpending : pending p zone (c :: found) rest w =
          Listing.inZone zone c :: pending p zone found rest (noted zone c w) := rfl
      rw [drain_cons, hpending]
      rcases hadd : ix.add (Listing.inZone zone c) with ⟨jx, _ | e⟩
      · exact .after hadd (ih jx (noted zone c w))
      · have henter := Index.enterAll_cons_refused (pending p zone found rest (noted zone c w)) hadd
        exact ⟨by rw [henter]; rfl, by rw [henter], rfl, by rw [henter], by simp⟩

theorem follows_zones (p : Provider σ) (zone : Zone) (rest : List Zone) (ix : Index) (w : World σ) :
    Follows ix (walk p rest w) (walked p rest w) (drain p (.reporting zone [] rest) ix w) := by
  induction rest generalizing zone ix w with
  | nil => exact ⟨rfl, rfl, rfl, rfl, fun _ => rfl⟩
  | cons z rest ih =>
      rw [drain_zone, walk, walked]
      rcases (p.clusters z.endpoint).perform w with ⟨e | _ | ⟨c, found⟩, v⟩
      · exact ih zone ix _
      · exact ih zone ix _
      · exact follows_found p z rest (ih z) (c :: found) ix v

theorem Follows.enters {ix : Index} {cs : List Cluster} {left : World σ} {pass : Pass σ}
    (h : Follows ix cs left pass) : Enters ix cs pass := by
  by_cases htakes : ix.Takes cs
  · have henter := Index.enterAll_of_takes htakes
    exact .inl ⟨htakes, by rw [h.results, henter], by rw [h.failure, henter], h.search,
      by rw [h.index, henter]⟩
  · exact .inr ⟨htakes, by rwa [h.failure, ne_eq, ← Index.takes_iff_refused]⟩

def reports (p : Provider σ) (w : World σ) : List Cluster :=
  match p.zones.perform (w.record (note .debug "Exoscale: start search")) with
  | (.error _, _) => []
  | (.ok zones, w) => walk p zones w

def concluded (p : Provider σ) (w : World σ) : World σ :=
  match p.zones.perform (w.record (note .debug "Exoscale: start search")) with
  | (.error _, w) => w
  | (.ok [], w) => w.record (note .debug "No Exoscale zones found")
  | (.ok zones, w) => walked p zones w

end Search

variable {σ : Type}

theorem discover_unavailable {p : Provider σ} {w v : World σ} {e : Failure} (ix : Index)
    (h : p.zones.perform (w.record (note .debug "Exoscale: start search")) = (.error e, v)) :
    discover p ix w = ⟨[.failed (.unavailable e)], none, .ended, ix, v⟩ := by
  rw [discover, Search.drain, Search.next, Search.start, h]
  rfl

theorem discover_follows {p : Provider σ} {w v : World σ} {zones : List Zone} (ix : Index)
    (h : p.zones.perform (w.record (note .debug "Exoscale: start search")) = (.ok zones, v)) :
    Search.Follows ix (Search.reports p w) (Search.concluded p w) (discover p ix w) := by
  rw [discover, Search.drain, Search.next, Search.start, Search.reports, Search.concluded, h]
  cases zones with
  | nil => exact ⟨rfl, rfl, rfl, rfl, fun _ => rfl⟩
  | cons z rest => exact Search.follows_zones p z (z :: rest) ix v

/-- A pass enters its reports and shows their paths; or the zones cannot be listed, and the only
result says so. -/
theorem discover_cases (p : Provider σ) (ix : Index) (w : World σ) :
    Search.Enters ix (Search.reports p w) (discover p ix w) ∨
      Search.reports p w = [] ∧ ∃ e v, discover p ix w =
        ⟨[.failed (.unavailable e)], none, .ended, ix, v⟩ := by
  rcases hzones : p.zones.perform (w.record (note .debug "Exoscale: start search"))
    with ⟨e | zones, v⟩
  · exact .inr ⟨by rw [Search.reports, hzones], e, v, discover_unavailable ix hzones⟩
  · exact .inl (discover_follows ix hzones).enters

theorem discover_complete {p : Provider σ} {ix : Index} {w : World σ}
    (h : (discover p ix w).failure = none) :
    ix.Takes (Search.reports p w) ∧ (discover p ix w).search = .ended ∧
      (discover p ix w).index = ix.addAll (Search.reports p w) ∧
      ∀ path, .path path ∈ (discover p ix w).results ↔
        ∃ c ∈ Search.reports p w, c.path = path := by
  rcases discover_cases p ix w with (⟨htakes, hresults, -, hsearch, hindex⟩ | ⟨-, hfailure⟩) |
    ⟨hnone, e, v, hpass⟩
  · refine ⟨htakes, hsearch, hindex, fun path => ?_⟩
    simp [hresults]
  · exact absurd h hfailure
  · rw [hnone, hpass]
    simp [Cluster.Index.Takes]

end Store
end KubeAtlas
