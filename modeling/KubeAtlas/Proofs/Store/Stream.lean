import KubeAtlas.Proofs.Store.Pass
/-!
# A search between its requests

A search is left at every request to the provider, and other work goes on until the answer is there.
A stream is a search that may be found in the middle of a step: it stands between two results, or at
a request. `Stream.step` moves it on up to the next request; with no other work in between, the
stretches make up a step of the search (`Stream.comes_next`).

What is left to be reported of a stream is its course. `Stream.goes` lists all that a stretch can
do, by what it does to the course and to the index.
-/

namespace KubeAtlas

namespace Store

open Cluster (Index)

/-- A search that may be in the middle of a step. -/
inductive Stream where
  | idle (s : Search)
  | atZones
  | atClusters (zone : Zone) (rest : List Zone)

/-- A stretch of a search: where it stands then, and what it showed if it did not stop at a
request. -/
structure Stretch (σ : Type) where
  stream : Stream
  shown : Option (Except Failure (Option SearchResult))
  index : Index
  world : World σ

def Stretch.last {σ : Type} (st : Step σ) : Stretch σ :=
  ⟨.idle st.search, some st.result, st.index, st.world⟩

namespace Stream

variable {σ : Type}

def onward (zones : List Zone) (ix : Index) (w : World σ) : Stretch σ :=
  match zones with
  | [] => ⟨.idle .ended, some (.ok none), ix, w⟩
  | z :: rest => ⟨.atClusters z rest, none, ix, w⟩

def asked (s : Search) (ix : Index) (w : World σ) : Stretch σ :=
  match s with
  | .unstarted => ⟨.atZones, none, ix, w.record (note .debug "Exoscale: start search")⟩
  | .reporting zone (c :: found) rest => .last (Search.report zone c found rest ix w)
  | .reporting _ [] rest => onward rest ix w
  | .ended => ⟨.idle .ended, some (.ok none), ix, w⟩

def listed (answer : Except Failure (List Zone)) (ix : Index) (w : World σ) : Stretch σ :=
  match answer with
  | .error e => ⟨.idle .ended, some (.ok (some (.failed (.unavailable e)))), ix, w⟩
  | .ok [] =>
    ⟨.idle .ended, some (.ok none), ix, w.record (note .debug "No Exoscale zones found")⟩
  | .ok zones => onward zones ix w

def answered (zone : Zone) (rest : List Zone) (answer : Except Failure (List Listing))
    (ix : Index) (w : World σ) : Stretch σ :=
  match answer with
  | .error e =>
    onward rest ix (w.record (note .warning (Failure.zone zone.name e.message).message))
  | .ok [] =>
    onward rest ix (w.record (note .debug s!"No SKS clusters found in zone {zone.name.text}"))
  | .ok (c :: found) => .last (Search.report zone c found rest ix w)

/-- Goes on up to the next request. A request that was made is answered by the provider. -/
def step (p : Provider σ) (s : Stream) (ix : Index) (w : World σ) : Stretch σ :=
  match s with
  | .idle s => asked s ix w
  | .atZones =>
    let (answer, v) := p.zones.perform w
    listed answer ix v
  | .atClusters z rest =>
    let (answer, v) := (p.clusters z.endpoint).perform w
    answered z rest answer ix v

/-! ### The stretches of one step -/

/-- What a stream comes to if there is no other work at its requests. -/
inductive Comes (p : Provider σ) : Stream → Index → World σ → Step σ → Prop
  | last {s : Stream} {ix : Index} {w : World σ} {st : Step σ}
      (h : s.step p ix w = .last st) : Comes p s ix w st
  | more {s t : Stream} {ix jx : Index} {w v : World σ} {st : Step σ}
      (h : s.step p ix w = ⟨t, none, jx, v⟩) (hrest : Comes p t jx v st) : Comes p s ix w st

theorem comes_onward {p : Provider σ} {s : Stream} {zones : List Zone} {ix : Index} {w v : World σ}
    (h : s.step p ix w = onward zones ix v) : Comes p s ix w (Search.fromZones p ix zones v) := by
  induction zones generalizing s w v with
  | nil => exact .last h
  | cons z rest ih =>
      refine .more h ?_
      rw [Search.fromZones]
      rcases hclusters : (p.clusters z.endpoint).perform v with ⟨e | _ | ⟨c, found⟩, u⟩
      · exact ih (by rw [step, hclusters]; rfl)
      · exact ih (by rw [step, hclusters]; rfl)
      · exact .last (by rw [step, hclusters]; rfl)

/-- With no other work at its requests, a stream does what a step of the search does. -/
theorem comes_next (p : Provider σ) (s : Search) (ix : Index) (w : World σ) :
    Comes p (.idle s) ix w (Search.next p s ix w) := by
  cases s with
  | unstarted =>
      refine .more rfl ?_
      rw [Search.next, Search.start]
      rcases hzones : p.zones.perform (w.record (note .debug "Exoscale: start search"))
        with ⟨e | _ | ⟨z, rest⟩, v⟩
      · exact .last (by rw [step, hzones]; rfl)
      · exact .last (by rw [step, hzones]; rfl)
      · exact comes_onward (by rw [step, hzones]; rfl)
  | reporting zone found rest =>
      cases found with
      | nil => exact comes_onward rfl
      | cons c found => exact .last rfl
  | ended => exact .last rfl

theorem exists_comes (p : Provider σ) (s : Stream) (ix : Index) (w : World σ) :
    ∃ st, Comes p s ix w st := by
  cases s with
  | idle s => exact ⟨_, comes_next p s ix w⟩
  | atZones =>
      rcases hzones : p.zones.perform w with ⟨e | _ | ⟨z, rest⟩, v⟩
      · exact ⟨⟨_, _, _, _⟩, .last (by rw [step, hzones]; rfl)⟩
      · exact ⟨⟨_, _, _, _⟩, .last (by rw [step, hzones]; rfl)⟩
      · have hstep : step p .atZones ix w = onward (z :: rest) ix v := by
          rw [step, hzones]
          rfl
        exact ⟨_, comes_onward hstep⟩
  | atClusters z rest =>
      rcases hclusters : (p.clusters z.endpoint).perform w with ⟨e | _ | ⟨c, found⟩, v⟩
      · exact ⟨_, comes_onward (by rw [step, hclusters]; rfl)⟩
      · exact ⟨_, comes_onward (by rw [step, hclusters]; rfl)⟩
      · exact ⟨_, .last (by rw [step, hclusters]; rfl)⟩

theorem stream_step_ne (p : Provider σ) (s : Stream) (ix : Index) (w : World σ) :
    (s.step p ix w).stream ≠ .idle .unstarted := by
  have honward : ∀ (zones : List Zone) (v : World σ),
      (onward zones ix v).stream ≠ .idle .unstarted := by
    intro zones v
    cases zones <;> simp [onward]
  have hreport : ∀ (zone : Zone) (c : Listing) (found : List Listing) (rest : List Zone)
      (v : World σ), (Stretch.last (Search.report zone c found rest ix v)).stream ≠
        .idle .unstarted := by
    intro zone c found rest v
    rw [Search.report]
    rcases ix.add ⟨c.id, c.name, zone.name, zone.endpoint⟩ with ⟨jx, _ | e⟩ <;> simp [Stretch.last]
  rcases s with (_ | ⟨zone, _ | ⟨c, found⟩, rest⟩ | _) | _ | ⟨z, rest⟩
  · simp [step, asked]
  · exact honward rest w
  · exact hreport zone c found rest w
  · simp [step, asked]
  · rw [step]
    rcases p.zones.perform w with ⟨e | _ | ⟨z, rest⟩, v⟩
    · simp [listed]
    · simp [listed]
    · exact honward (z :: rest) v
  · rw [step]
    rcases (p.clusters z.endpoint).perform w with ⟨e | _ | ⟨c, found⟩, v⟩
    · exact honward rest _
    · exact honward rest _
    · exact hreport z c found rest v

theorem Comes.search_ne {p : Provider σ} {s : Stream} {ix : Index} {w : World σ} {st : Step σ}
    (h : Comes p s ix w st) : st.search ≠ .unstarted := by
  induction h with
  | @last s ix w st h =>
      have hne := stream_step_ne p s ix w
      rw [h] at hne
      exact fun hst => hne (congrArg Stream.idle hst)
  | more _ _ ih => exact ih

/-! ### The course of a stream -/

/-- What the zones report if they can be listed. -/
def listing (p : Provider σ) (w : World σ) : Except Failure (List Cluster) :=
  match p.zones.perform w with
  | (.error e, _) => .error e
  | (.ok zones, w) => .ok (Search.walk p zones w)

/-- What is left to be reported, unless the zones cannot be listed. -/
def course (p : Provider σ) (s : Stream) (w : World σ) : Except Failure (List Cluster) :=
  match s with
  | .idle .unstarted => listing p (w.record (note .debug "Exoscale: start search"))
  | .idle (.reporting zone found rest) => .ok (Search.pending p zone found rest w)
  | .idle .ended => .ok []
  | .atZones => listing p w
  | .atClusters z rest => .ok (Search.walk p (z :: rest) w)

/-- What a stretch does: nothing but a request, a report that is taken or refused, or the end. -/
inductive Goes (p : Provider σ) (s : Stream) (ix : Index) (w : World σ) : Stretch σ → Prop
  | waits {t : Stream} {v : World σ} (hcourse : t.course p v = s.course p w) :
      Goes p s ix w ⟨t, none, ix, v⟩
  | reports {c : Cluster} {cs : List Cluster} {t : Stream} {jx : Index} {v : World σ}
      (hcourse : s.course p w = .ok (c :: cs)) (hadd : ix.add c = (jx, none))
      (hrest : t.course p v = .ok cs) :
      Goes p s ix w ⟨t, some (.ok (some (.path c.path))), jx, v⟩
  | refused {c : Cluster} {cs : List Cluster} {e : Failure} {jx : Index} {v : World σ}
      (hcourse : s.course p w = .ok (c :: cs)) (hadd : ix.add c = (jx, some e)) :
      Goes p s ix w ⟨.idle .ended, some (.error e), jx, v⟩
  | ends {v : World σ} (hcourse : s.course p w = .ok []) :
      Goes p s ix w ⟨.idle .ended, some (.ok none), ix, v⟩
  | unavailable {e : Failure} {v : World σ} (hcourse : s.course p w = .error e) :
      Goes p s ix w ⟨.idle .ended, some (.ok (some (.failed (.unavailable e)))), ix, v⟩

theorem goes_onward {p : Provider σ} {s : Stream} {zones : List Zone} {ix : Index} {w v : World σ}
    (h : s.course p w = .ok (Search.walk p zones v)) : Goes p s ix w (onward zones ix v) := by
  cases zones with
  | nil => exact .ends h
  | cons z rest => exact .waits h.symm

theorem goes_report {p : Provider σ} {s : Stream} {zone : Zone} {c : Listing}
    {found : List Listing} {rest : List Zone} {ix : Index} {w v : World σ}
    (h : s.course p w = .ok (Search.pending p zone (c :: found) rest v)) :
    Goes p s ix w (.last (Search.report zone c found rest ix v)) := by
  change Goes p s ix w (.last (Search.next p (.reporting zone (c :: found) rest) ix v))
  rw [Search.next_cons]
  rcases hadd : ix.add (Listing.inZone zone c) with ⟨jx, _ | e⟩
  · exact .reports h hadd rfl
  · exact .refused h hadd

theorem goes (p : Provider σ) (s : Stream) (ix : Index) (w : World σ) :
    Goes p s ix w (s.step p ix w) := by
  rcases s with (_ | ⟨zone, _ | ⟨c, found⟩, rest⟩ | _) | _ | ⟨z, rest⟩
  · exact .waits rfl
  · exact goes_onward rfl
  · exact goes_report rfl
  · exact .ends rfl
  · rw [step]
    rcases hzones : p.zones.perform w with ⟨e | _ | ⟨z, rest⟩, v⟩
    · exact .unavailable (by rw [course, listing, hzones])
    · exact .ends (by rw [course, listing, hzones]; rfl)
    · exact goes_onward (s := .atZones) (by rw [course, listing, hzones])
  · rw [step]
    rcases hclusters : (p.clusters z.endpoint).perform w with ⟨e | _ | ⟨c, found⟩, v⟩
    · exact goes_onward (by rw [course, Search.walk, hclusters])
    · exact goes_onward (by rw [course, Search.walk, hclusters])
    · exact goes_report (by rw [course, Search.walk, hclusters]; rfl)

theorem Goes.of_course {p : Provider σ} {s t : Stream} {ix : Index} {w v : World σ}
    {st : Stretch σ} (hcourse : t.course p v = s.course p w) (h : Goes p t ix v st) :
    Goes p s ix w st := by
  cases h with
  | waits hrest => exact .waits (hrest.trans hcourse)
  | reports hfirst hadd hrest => exact .reports (hcourse ▸ hfirst) hadd hrest
  | refused hfirst hadd => exact .refused (hcourse ▸ hfirst) hadd
  | ends hfirst => exact .ends (hcourse ▸ hfirst)
  | unavailable hfirst => exact .unavailable (hcourse ▸ hfirst)

theorem Comes.goes {p : Provider σ} {s : Stream} {ix : Index} {w : World σ} {st : Step σ}
    (h : Comes p s ix w st) : Goes p s ix w (.last st) := by
  induction h with
  | @last s ix w st h => exact h ▸ Stream.goes p s ix w
  | @more s t ix jx w v st h _ ih =>
      -- a stretch that shows nothing changes neither the index nor the course
      have hgoes := Stream.goes p s ix w
      rw [h] at hgoes
      cases hgoes with
      | waits hcourse => exact ih.of_course hcourse

theorem goes_next (p : Provider σ) (s : Search) (ix : Index) (w : World σ) :
    Goes p (.idle s) ix w (.last (Search.next p s ix w)) :=
  (comes_next p s ix w).goes

end Stream

/-! ### The course of a pass -/

variable {σ : Type} {p : Provider σ} {w : World σ}

theorem discover_of_course {cs : List Cluster} (ix : Index)
    (h : (Stream.idle .unstarted).course p w = .ok cs) :
    Search.reports p w = cs ∧ Search.Follows ix cs (Search.concluded p w) (discover p ix w) := by
  rw [Stream.course, Stream.listing] at h
  rcases hzones : p.zones.perform (w.record (note .debug "Exoscale: start search"))
    with ⟨e | zones, v⟩
  · rw [hzones] at h
    cases h
  · rw [hzones] at h
    have hreports : Search.reports p w = cs := by
      rw [Search.reports, hzones]
      exact Except.ok.inj h
    exact ⟨hreports, hreports ▸ discover_follows ix hzones⟩

theorem discover_of_unlisted {e : Failure} (ix : Index)
    (h : (Stream.idle .unstarted).course p w = .error e) :
    Search.reports p w = [] ∧
      ∃ v, discover p ix w = ⟨[.failed (.unavailable e)], none, .ended, ix, v⟩ := by
  rw [Stream.course, Stream.listing] at h
  rcases hzones : p.zones.perform (w.record (note .debug "Exoscale: start search"))
    with ⟨d | zones, v⟩
  · rw [hzones] at h
    cases h
    exact ⟨by rw [Search.reports, hzones], v, discover_unavailable ix hzones⟩
  · rw [hzones] at h
    cases h

end Store
end KubeAtlas
