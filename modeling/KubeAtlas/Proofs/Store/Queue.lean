import KubeAtlas.Proofs.Store.Feed
import KubeAtlas.Store.Queue
/-!
# How far a search is ahead of its queue

Left alone, a search that feeds a queue goes on until it waits for room or is finished. It gets
there after finitely many turns, and `Queue.advance` is what it has then come to
(`Feed.run_advance`). There the queue is full or has everything that was found, so that the numbers
of results that were shown, queued and taken determine each other. `feed_exact` puts this together
with what holds at every moment.
-/

namespace KubeAtlas

namespace Store

open Cluster (Index)

variable {σ : Type} {p : Provider σ}

/-! ### A search that is left alone -/

/-- What holds of a search if it holds of every search that comes to no further result, and of one
that comes to a result if it holds of what is left then. -/
inductive Search.Ends (p : Provider σ) : Search → Index → World σ → Prop
  | intro {s : Search} {ix : Index} {w : World σ}
      (h : ∀ r t jx v, Search.next p s ix w = ⟨.ok (some r), t, jx, v⟩ → Ends p t jx v) :
      Ends p s ix w

/-- A result is the first of what is left, or says that the zones cannot be listed. -/
theorem Search.course_of_next {s t : Search} {ix jx : Index} {w v : World σ} {r : SearchResult}
    (h : Search.next p s ix w = ⟨.ok (some r), t, jx, v⟩) :
    (∃ c cs, (Stream.idle s).course p w = .ok (c :: cs) ∧ (Stream.idle t).course p v = .ok cs) ∨
      (∃ e, (Stream.idle s).course p w = .error e) ∧ (Stream.idle t).course p v = .ok [] := by
  have hgoes := Stream.goes_next p s ix w
  rw [h] at hgoes
  cases hgoes with
  | reports hcourse _ hrest => exact .inl ⟨_, _, hcourse, hrest⟩
  | unavailable hcourse => exact .inr ⟨⟨_, hcourse⟩, rfl⟩

theorem Search.ends_of_course {s : Search} {ix : Index} {w : World σ} {cs : List Cluster}
    (h : (Stream.idle s).course p w = .ok cs) : Search.Ends p s ix w := by
  induction cs generalizing s ix w with
  | nil =>
      refine .intro fun r t jx v hnext => ?_
      obtain ⟨c, cs, hcourse, -⟩ | ⟨⟨e, hcourse⟩, -⟩ := Search.course_of_next hnext
      · cases h.symm.trans hcourse
      · cases h.symm.trans hcourse
  | cons c cs ih =>
      refine .intro fun r t jx v hnext => ?_
      obtain ⟨d, ds, hcourse, hrest⟩ | ⟨⟨e, hcourse⟩, -⟩ := Search.course_of_next hnext
      · cases h.symm.trans hcourse
        exact ih hrest
      · cases h.symm.trans hcourse

theorem Search.ends (p : Provider σ) (s : Search) (ix : Index) (w : World σ) :
    Search.Ends p s ix w := by
  refine .intro fun r t jx v hnext => ?_
  obtain ⟨c, cs, -, hrest⟩ | ⟨-, hrest⟩ := Search.course_of_next hnext
  · exact Search.ends_of_course hrest
  · exact Search.ends_of_course hrest

theorem Search.drain_next (p : Provider σ) (s : Search) (ix : Index) (w : World σ) :
    Search.drain p s ix w = match Search.next p s ix w with
      | ⟨.ok (some r), s, ix, w⟩ => (Search.drain p s ix w).after r
      | ⟨.ok none, s, ix, w⟩ => ⟨[], none, s, ix, w⟩
      | ⟨.error e, s, ix, w⟩ => ⟨[], some e, s, ix, w⟩ := by
  have hne := (Stream.comes_next p s ix w).search_ne
  rw [Search.drain]
  generalize Search.next p s ix w = st at hne ⊢
  rcases st with ⟨e | _ | r, t, jx, v⟩
  · rfl
  · rfl
  · cases t with
    | unstarted => exact absurd rfl hne
    | reporting zone found rest => simp only [Search.drain_reporting]
    | ended => rfl

namespace Queue

/-- A queue with a search that is ahead of it as far as it may be waits. -/
theorem advance_of_full {q : Queue σ} (hcapacity : q.capacity ≠ 0)
    (hfull : q.capacity < q.found.length) : q.advance p = q := by
  rw [advance, if_neg hcapacity, Nat.sub_eq_zero_of_le hfull]
  simp [Search.pull]

theorem advance_of_room {q : Queue σ} (hroom : q.capacity = 0 ∨ q.found.length ≤ q.capacity) :
    q.advance p = match Search.next p q.search q.index q.world with
      | ⟨.ok (some r), s, ix, w⟩ =>
        advance p { q with found := q.found ++ [r], search := s, index := ix, world := w }
      | ⟨.ok none, s, ix, w⟩ => { q with search := s, index := ix, world := w }
      | ⟨.error e, s, ix, w⟩ =>
        { q with failure := q.failure.or (some e), search := s, index := ix, world := w } := by
  by_cases hcapacity : q.capacity = 0
  · rw [advance, if_pos hcapacity, Search.drain_next]
    rcases Search.next p q.search q.index q.world with ⟨e | _ | r, t, jx, v⟩
    · simp
    · simp
    · simp [advance, hcapacity, Pass.after]
  · have hroom := hroom.resolve_left hcapacity
    rw [advance, if_neg hcapacity, Nat.succ_sub hroom, Search.pull]
    rcases Search.next p q.search q.index q.world with ⟨e | _ | r, t, jx, v⟩
    · simp
    · simp
    · have hleft : q.capacity + 1 - (q.found.length + 1) = q.capacity - q.found.length := by omega
      simp [advance, hcapacity, Pass.after, hleft]

end Queue

namespace Feed

variable {capacity : Nat} {f : Feed σ}

/-- The search and the queue of a feed whose search is between two results. -/
def queue (capacity : Nat) (f : Feed σ) (s : Search) : Queue σ :=
  ⟨capacity, f.queued ++ f.hand.toList, f.failure, s, f.index, f.world⟩

theorem move_search (hhand : f.hand = none) :
    f.move p capacity .search = f.receive (f.stream.step p f.index f.world) := by
  rw [move, hhand]

theorem move_put {r : SearchResult} (hhand : f.hand = some r) (hroom : ¬ f.IsFull capacity) :
    f.move p capacity .search = f.put r := by
  rw [move, hhand]
  simp only [hroom, if_false]

theorem length_put_le {r : SearchResult} (hroom : ¬ f.IsFull capacity) (hcapacity : capacity ≠ 0) :
    (f.put r).queued.length ≤ capacity := by
  rw [IsFull, not_and, not_le] at hroom
  rw [put, List.length_append]
  exact hroom hcapacity

theorem run_of_comes (capacity : Nat) {s : Stream} {ix : Index} {w : World σ} {st : Step σ}
    (h : Stream.Comes p s ix w st) {f : Feed σ} (hhand : f.hand = none) (hstream : f.stream = s)
    (hindex : f.index = ix) (hworld : f.world = w) :
    ∃ n, f.run p capacity (List.replicate n .search) = f.receive (.last st) := by
  induction h generalizing f with
  | @last s ix w st h =>
      refine ⟨1, ?_⟩
      change f.move p capacity .search = _
      rw [move_search hhand, hstream, hindex, hworld, h]
  | @more s t ix jx w v st h _ ih =>
      have hmove : f.move p capacity .search = f.receive ⟨t, none, jx, v⟩ := by
        rw [move_search hhand, hstream, hindex, hworld, h]
      obtain ⟨n, hn⟩ := @ih (f.receive ⟨t, none, jx, v⟩) rfl rfl rfl rfl
      refine ⟨n + 1, ?_⟩
      change (f.move p capacity .search).run p capacity (List.replicate n .search) = _
      rw [hmove, hn]
      rfl

/-- What a search that is left alone comes to: it rests, with the queue as it is then. -/
def Settles (p : Provider σ) (capacity : Nat) (f : Feed σ) (q : Queue σ) : Prop :=
  ∃ n t, (f.run p capacity (List.replicate n .search)).Rests capacity ∧
    (f.run p capacity (List.replicate n .search)).stream = .idle t ∧
    (f.run p capacity (List.replicate n .search)).queue capacity t = q.advance p

theorem settles_of_rests {s : Search} {q : Queue σ} (hrests : f.Rests capacity)
    (hstream : f.stream = .idle s) (hqueue : f.queue capacity s = q.advance p) :
    f.Settles p capacity q :=
  ⟨0, s, hrests, hstream, hqueue⟩

theorem settles_of_run {n : Nat} {g : Feed σ} {q : Queue σ}
    (hrun : f.run p capacity (List.replicate n .search) = g) (h : g.Settles p capacity q) :
    f.Settles p capacity q := by
  obtain ⟨m, t, hrests, hstream, hqueue⟩ := h
  rw [← hrun, ← run_append, List.replicate_append_replicate] at hrests hstream hqueue
  exact ⟨n + m, t, hrests, hstream, hqueue⟩

theorem settles_of_put {s : Search} {r : SearchResult} (hhand : f.hand = some r)
    (hstream : f.stream = .idle s)
    (h : ¬ f.IsFull capacity → (f.put r).Settles p capacity ((f.put r).queue capacity s)) :
    f.Settles p capacity (f.queue capacity s) := by
  by_cases hfull : f.IsFull capacity
  · have hhandle : f.hand.isSome := Option.isSome_iff_exists.2 ⟨r, hhand⟩
    refine settles_of_rests (.inl ⟨hhandle, hfull⟩) hstream (Queue.advance_of_full hfull.1 ?_).symm
    rw [queue, hhand, List.length_append]
    exact Nat.lt_succ_of_le hfull.2
  · have hmove : f.run p capacity (List.replicate 1 .search) = f.put r := move_put hhand hfull
    have hqueue : f.queue capacity s = (f.put r).queue capacity s := by
      simp [queue, put, hhand]
    rw [hqueue]
    exact settles_of_run hmove (h hfull)

theorem advance_queue {s : Search} (hhand : f.hand = none)
    (hlength : capacity ≠ 0 → f.queued.length ≤ capacity) :
    (f.queue capacity s).advance p =
      let st := Search.next p s f.index f.world
      match st.result with
      | .ok (some _) => ((f.receive (.last st)).queue capacity st.search).advance p
      | _ => (f.receive (.last st)).queue capacity st.search := by
  have hroom : capacity = 0 ∨ (f.queue capacity s).found.length ≤ capacity := by
    rw [queue, hhand, Option.toList_none, List.append_nil]
    exact or_iff_not_imp_left.2 hlength
  rw [Queue.advance_of_room hroom]
  simp only [queue, hhand, Option.toList_none, List.append_nil]
  rcases Search.next p s f.index f.world with ⟨e | _ | r, t, jx, v⟩ <;>
    simp [receive, Stretch.last]

theorem settles_of_ends {s : Search} {ix : Index} {w : World σ} (h : Search.Ends p s ix w)
    {f : Feed σ} (hhand : f.hand = none) (hstream : f.stream = .idle s) (hindex : f.index = ix)
    (hworld : f.world = w) (hlength : capacity ≠ 0 → f.queued.length ≤ capacity) :
    f.Settles p capacity (f.queue capacity s) := by
  induction h generalizing f with
  | @intro s ix w _ ih =>
      subst hindex hworld
      obtain ⟨n, hrun⟩ := run_of_comes capacity (Stream.comes_next p s f.index f.world)
        hhand hstream rfl rfl
      refine settles_of_run hrun ?_
      have hadvance := advance_queue (s := s) (p := p) hhand hlength
      have hgoes := Stream.goes_next p s f.index f.world
      rcases hnext : Search.next p s f.index f.world with ⟨e | _ | r, t, jx, v⟩
      · rw [hnext] at hadvance hgoes
        cases hgoes
        exact settles_of_rests (.inr ⟨rfl, rfl⟩) rfl hadvance.symm
      · rw [hnext] at hadvance hgoes
        cases hgoes
        exact settles_of_rests (.inr ⟨rfl, rfl⟩) rfl hadvance.symm
      · rw [hnext] at hadvance
        rw [Settles, hadvance]
        refine settles_of_put (r := r) rfl rfl fun hroom => ?_
        exact ih r t jx v hnext rfl rfl rfl rfl (length_put_le hroom)

/-- A search that is left alone between two results comes to rest, as `Queue.advance` says. -/
theorem run_advance {s : Search} (hstream : f.stream = .idle s)
    (hlength : capacity ≠ 0 → f.queued.length ≤ capacity) :
    f.Settles p capacity (f.queue capacity s) := by
  cases hhand : f.hand with
  | none => exact settles_of_ends (Search.ends p s f.index f.world) hhand hstream rfl rfl hlength
  | some r =>
      refine settles_of_put hhand hstream fun hroom => ?_
      exact settles_of_ends (Search.ends p s f.index f.world) rfl hstream rfl rfl
        (length_put_le hroom)

theorem exists_rests (hlength : capacity ≠ 0 → f.queued.length ≤ capacity) :
    ∃ n, (f.run p capacity (List.replicate n .search)).Rests capacity := by
  have hnone : ∀ g : Feed σ, g.hand = none → (capacity ≠ 0 → g.queued.length ≤ capacity) →
      ∃ n, (g.run p capacity (List.replicate n .search)).Rests capacity := by
    intro g hhand hlength
    obtain ⟨st, hcomes⟩ := Stream.exists_comes p g.stream g.index g.world
    obtain ⟨n, hrun⟩ := run_of_comes capacity hcomes hhand rfl rfl rfl
    obtain ⟨m, -, hrests, -⟩ :=
      run_advance (p := p) (f := g.receive (.last st)) rfl hlength
    rw [← hrun, ← run_append, List.replicate_append_replicate] at hrests
    exact ⟨n + m, hrests⟩
  cases hhand : f.hand with
  | none => exact hnone f hhand hlength
  | some r =>
      by_cases hfull : f.IsFull capacity
      · exact ⟨0, .inl ⟨Option.isSome_iff_exists.2 ⟨r, hhand⟩, hfull⟩⟩
      · obtain ⟨n, hrests⟩ := hnone (f.put r) rfl (length_put_le hfull)
        rw [← move_put (p := p) hhand hfull] at hrests
        exact ⟨n + 1, hrests⟩

/-! ### What is in the queue when the search rests -/

theorem Rests.isFull_of_hand {r : SearchResult} (hrests : f.Rests capacity)
    (hhand : f.hand = some r) : f.IsFull capacity := by
  rcases hrests with ⟨-, hfull⟩ | hfinished
  · exact hfull
  · cases hhand.symm.trans hfinished.1

theorem size_queue (s : Search) (hlength : capacity ≠ 0 → f.queued.length ≤ capacity)
    (hrests : f.Rests capacity) : (f.queue capacity s).size = f.queued.length := by
  rw [Queue.size, queue]
  cases hhand : f.hand with
  | none =>
      rw [Option.toList_none, List.append_nil]
      split
      · rfl
      · next hcapacity => exact min_eq_left (hlength hcapacity)
  | some r =>
      have hfull := hrests.isFull_of_hand hhand
      have hqueued : f.queued.length = capacity := (hlength hfull.1).antisymm hfull.2
      rw [if_neg hfull.1, Option.toList_some, List.length_append, hqueued]
      exact min_eq_right (Nat.le_succ capacity)

theorem isFinished_queue {s : Search} (hlength : capacity ≠ 0 → f.queued.length ≤ capacity)
    (hrests : f.Rests capacity) (hstream : f.stream = .idle s) :
    (f.queue capacity s).isFinished = true ↔ f.IsFinished := by
  have hended : (f.queue capacity s).search.isEnded = true ↔ f.stream = .idle .ended := by
    rw [hstream, queue]
    cases s <;> simp [Search.isEnded]
  have hempty : f.queued.length = (f.queue capacity s).found.length ↔ f.hand = none := by
    rw [queue, List.length_append]
    cases f.hand <;> simp
  rw [Queue.isFinished, size_queue s hlength hrests, Bool.and_eq_true, beq_iff_eq, hended, hempty]
  exact and_comm

theorem take_queue (s : Search) (hrests : f.Rests capacity) :
    (f.queue capacity s).take = f.queued.head?.map fun r =>
      (r, (f.move p capacity .reader).queue capacity s) := by
  cases hqueued : f.queued with
  | nil =>
      have hhand : f.hand = none := by
        cases hhand : f.hand with
        | none => rfl
        | some r =>
            obtain ⟨hcapacity, hle⟩ := hrests.isFull_of_hand hhand
            rw [hqueued] at hle
            exact absurd (Nat.le_zero.1 hle) hcapacity
      rw [queue, hqueued, hhand]
      rfl
  | cons r rest =>
      rw [move, hqueued, queue, hqueued]
      rfl

theorem Along.counts {ix : Index} {w : World σ} (h : Along p ix w f)
    (hlength : capacity ≠ 0 → f.queued.length ≤ capacity) (hrests : f.Rests capacity) :
    (capacity = 0 → f.IsFinished ∧ f.taken ++ f.queued = (discover p ix w).results) ∧
      (capacity ≠ 0 →
        f.shown.length =
          min (discover p ix w).results.length (f.taken.length + capacity + 1) ∧
        f.queued.length = min ((discover p ix w).results.length - f.taken.length) capacity ∧
        (f.IsFinished ↔ (discover p ix w).results.length ≤ f.taken.length + capacity)) := by
  have hprefix := h.shown_prefix.length_le
  have hcount : f.shown.length = f.taken.length + f.queued.length + f.hand.toList.length := by
    rw [shown, List.length_append, List.length_append]
  rcases hrests with ⟨hhand, hfull⟩ | hfinished
  · -- the queue is full and one more result was shown, so the pass has at least that many
    obtain ⟨r, hhand⟩ := Option.isSome_iff_exists.1 hhand
    have hnot : ¬ f.IsFinished := by
      intro hfinished
      cases hhand.symm.trans hfinished.1
    rw [hhand, Option.toList_some, List.length_singleton] at hcount
    refine ⟨fun hcapacity => absurd hcapacity hfull.1, fun hcapacity => ?_⟩
    have hqueued : f.queued.length = capacity := (hlength hcapacity).antisymm hfull.2
    exact ⟨by omega, by omega, iff_of_false hnot (by omega)⟩
  · -- everything was shown, and what was not taken is in the queue
    have hall : f.taken ++ f.queued = (discover p ix w).results := by
      rw [← (h.of_finished hfinished).1, shown, hfinished.1]
      exact (List.append_nil _).symm
    refine ⟨fun _ => ⟨hfinished, hall⟩, fun hcapacity => ?_⟩
    rw [hfinished.1, Option.toList_none, List.length_nil] at hcount
    have hresults : f.taken.length + f.queued.length = (discover p ix w).results.length := by
      rw [← hall, List.length_append]
    have hqueued := hlength hcapacity
    exact ⟨by omega, by omega, iff_of_true hfinished (by omega)⟩

end Feed

open Feed (reported)

/-- **A queue gets the results of a pass in order, and no sooner than there is room.** Whatever the
schedule, the results that were taken and those in the queue are a beginning of the results of the
pass, and the index has the clusters of the results that were shown, unless a report that could not
be entered has stopped the search; a finished search has in any case done what the pass does. A
search that is left alone comes to rest, as `Queue.advance` says; with a limit it is then one result
ahead of a full queue, or finished. While it rests, the queue has the size that `Queue.size` says,
the search is finished if `Queue.isFinished` says so, and a reader takes what `Queue.take` takes.
When it is stopped, nothing more is entered or queued. -/
theorem feed_exact (p : Provider σ) (capacity : Nat) (ix : Index) (w : World σ)
    (turns : List Turn) :
    let results := (discover p ix w).results
    let f := (Feed.start ix w).run p capacity turns
    f.taken ++ f.queued <+: f.shown ∧ f.shown <+: results ∧
    (results = (reported p ix w).map (fun c => .path c.path) ∨
      reported p ix w = [] ∧ ∃ e, results = [.failed (.unavailable e)]) ∧
    (f.failure = none ∨ (∀ c ∈ Search.reports p w, c.IsKeyed) →
      f.index = ix.addAll ((reported p ix w).take f.shown.length)) ∧
    (f.IsFinished → f.shown = results ∧ f.index = (discover p ix w).index ∧
      f.failure = (discover p ix w).failure) ∧
    (f.Rests capacity →
      (capacity = 0 → f.IsFinished ∧ f.taken ++ f.queued = results) ∧
      (capacity ≠ 0 →
        f.shown.length = min results.length (f.taken.length + capacity + 1) ∧
        f.queued.length = min (results.length - f.taken.length) capacity ∧
        (f.IsFinished ↔ results.length ≤ f.taken.length + capacity))) ∧
    (∃ n, (f.run p capacity (List.replicate n .search)).Rests capacity) ∧
    (∀ s, f.stream = .idle s → f.Settles p capacity (f.queue capacity s) ∧
      (f.Rests capacity → (f.queue capacity s).size = f.queued.length ∧
        ((f.queue capacity s).isFinished = true ↔ f.IsFinished) ∧
        (f.queue capacity s).take = f.queued.head?.map fun r =>
          (r, (f.move p capacity .reader).queue capacity s))) ∧
    ∀ later, (f.cancelled.run p capacity later).index = f.index ∧
      (f.cancelled.run p capacity later).taken ++ (f.cancelled.run p capacity later).queued =
        f.taken ++ f.queued := by
  intro results f
  have halong := Feed.along_run p capacity ix w turns
  have hlength : capacity ≠ 0 → f.queued.length ≤ capacity := fun hcapacity =>
    Feed.length_queued_le turns hcapacity (Nat.zero_le _)
  refine ⟨List.prefix_append _ _, halong.shown_prefix, Feed.results_discover p ix w,
    halong.index_eq, halong.of_finished, fun hrests => halong.counts hlength hrests,
    Feed.exists_rests hlength,
    fun s hstream => ⟨Feed.run_advance hstream hlength, fun hrests => ?_⟩,
    fun later => Feed.run_cancelled later⟩
  exact ⟨Feed.size_queue s hlength hrests, Feed.isFinished_queue hlength hrests hstream,
    Feed.take_queue s hrests⟩

end Store
end KubeAtlas
