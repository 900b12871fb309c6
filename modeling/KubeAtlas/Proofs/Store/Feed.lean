import KubeAtlas.Proofs.Store.Stream
/-!
# A search that feeds a queue

The results of a search are put into a queue, and a reader takes them from it one by one. The two
take turns in any order. On its turn the search goes on up to its next request or its next result,
or puts the result that it has in hand into the queue, if there is room. `Feed` is what both of them
have come to, and a schedule is a list of turns.

Taken, queued and in hand: `Feed.shown` is what the search has shown so far. Whatever the schedule,
it is a beginning of the results of the pass, and the index is what the clusters of just these
results make of it (`Feed.along_run`). How far the search is ahead of the reader at a moment is then
a matter of counting.
-/

namespace KubeAtlas

namespace Store

open Cluster (Index)

/-- A search, the queue that it feeds, and what was taken from there. -/
structure Feed (σ : Type) where
  taken : List SearchResult
  queued : List SearchResult
  hand : Option SearchResult
  failure : Option Failure
  stream : Stream
  index : Index
  world : World σ

inductive Turn where
  | search
  | reader

namespace Feed

variable {σ : Type}

def start (ix : Index) (w : World σ) : Feed σ := ⟨[], [], none, none, .idle .unstarted, ix, w⟩

/-- The results that the search has shown so far. -/
def shown (f : Feed σ) : List SearchResult := f.taken ++ f.queued ++ f.hand.toList

/-- Whether the queue is full. A capacity of zero is no limit. -/
def IsFull (capacity : Nat) (f : Feed σ) : Prop := capacity ≠ 0 ∧ capacity ≤ f.queued.length

instance (capacity : Nat) (f : Feed σ) : Decidable (f.IsFull capacity) :=
  inferInstanceAs (Decidable (_ ∧ _))

/-- A stretch of the search. What it shows is taken in hand. -/
def receive (f : Feed σ) (st : Stretch σ) : Feed σ :=
  { f with
    hand := match st.shown with
      | some (.ok found) => found
      | _ => none
    failure := match st.shown with
      | some (.error e) => f.failure.or (some e)
      | _ => f.failure
    stream := st.stream
    index := st.index
    world := st.world }

def put (f : Feed σ) (r : SearchResult) : Feed σ :=
  { f with queued := f.queued ++ [r], hand := none }

/-- A turn. It may come to nothing: the search waits while the queue is full, the reader while it is
empty. -/
def move (p : Provider σ) (capacity : Nat) (f : Feed σ) : Turn → Feed σ
  | .search =>
    match f.hand with
    | none => f.receive (f.stream.step p f.index f.world)
    | some r => if f.IsFull capacity then f else f.put r
  | .reader =>
    match f.queued with
    | [] => f
    | r :: rest => { f with taken := f.taken ++ [r], queued := rest }

def run (p : Provider σ) (capacity : Nat) (f : Feed σ) (turns : List Turn) : Feed σ :=
  turns.foldl (move p capacity) f

/-- Whether the search has ended and has nothing in hand. -/
def IsFinished (f : Feed σ) : Prop := f.hand = none ∧ f.stream = .idle .ended

/-- Whether the search can do nothing: it waits for room, or is finished. -/
def Rests (capacity : Nat) (f : Feed σ) : Prop :=
  f.hand.isSome ∧ f.IsFull capacity ∨ f.IsFinished

def cancelled (f : Feed σ) : Feed σ := { f with hand := none, stream := .idle .ended }

variable {p : Provider σ} {capacity : Nat} {f : Feed σ} {ix : Index} {w : World σ}

theorem run_append (turns more : List Turn) :
    f.run p capacity (turns ++ more) = (f.run p capacity turns).run p capacity more :=
  List.foldl_append

theorem run_induction {P : Feed σ → Prop} (hmove : ∀ f turn, P f → P (f.move p capacity turn))
    (h : P f) (turns : List Turn) : P (f.run p capacity turns) := by
  induction turns generalizing f with
  | nil => exact h
  | cons turn turns ih => exact ih (hmove f turn h)

/-! ### The size of the queue -/

theorem length_queued_le (turns : List Turn) (hcapacity : capacity ≠ 0)
    (h : f.queued.length ≤ capacity) : (f.run p capacity turns).queued.length ≤ capacity := by
  refine run_induction (P := fun f => f.queued.length ≤ capacity) ?_ h turns
  intro f turn hf
  cases turn with
  | search =>
      rw [move]
      split
      · exact hf
      · next r _ =>
          split
          · exact hf
          · next hroom =>
              have hlt : f.queued.length < capacity := by
                rw [IsFull, not_and, not_le] at hroom
                exact hroom hcapacity
              rw [put, List.length_append]
              exact hlt
  | reader =>
      rw [move]
      split
      · exact hf
      · next r rest hqueued =>
          rw [hqueued, List.length_cons] at hf
          exact Nat.le_of_succ_le hf

/-! ### A search that is stopped -/

/-- When the search is stopped, the index stays and the queue is only read. -/
theorem run_cancelled (turns : List Turn) :
    (f.cancelled.run p capacity turns).index = f.index ∧
      (f.cancelled.run p capacity turns).taken ++ (f.cancelled.run p capacity turns).queued =
        f.taken ++ f.queued := by
  suffices hrun : (f.cancelled.run p capacity turns).hand = none ∧
      (f.cancelled.run p capacity turns).stream = .idle .ended ∧
      (f.cancelled.run p capacity turns).index = f.index ∧
      (f.cancelled.run p capacity turns).taken ++ (f.cancelled.run p capacity turns).queued =
        f.taken ++ f.queued from hrun.2.2
  refine run_induction (f := f.cancelled) (P := fun g => g.hand = none ∧ g.stream = .idle .ended ∧
    g.index = f.index ∧ g.taken ++ g.queued = f.taken ++ f.queued) ?_ ⟨rfl, rfl, rfl, rfl⟩ turns
  rintro g turn ⟨hhand, hstream, hindex, hresults⟩
  cases turn with
  | search =>
      rw [move, hhand]
      refine ⟨?_, ?_, ?_, hresults⟩ <;> rw [hstream]
      · rfl
      · rfl
      · exact hindex
  | reader =>
      rw [move]
      split
      · exact ⟨hhand, hstream, hindex, hresults⟩
      · next r rest hqueued =>
          rw [hqueued] at hresults
          refine ⟨hhand, hstream, hindex, ?_⟩
          rw [← hresults, List.append_assoc]
          rfl

/-! ### What was shown so far -/

/-- How far a search has come: it has entered some clusters and shown their paths, and has the rest
of its course before it, or it is complete. -/
inductive Along (p : Provider σ) (ix : Index) (w : World σ) (f : Feed σ) : Prop
  | underway {before : List Cluster} (htakes : ix.Takes before)
      (hindex : f.index = ix.addAll before)
      (hshown : f.shown = before.map fun c => .path c.path) (hfailure : f.failure = none)
      (hcourse : (Stream.idle .unstarted).course p w =
        (f.stream.course p f.world).map (before ++ ·))
      (hfirst : before = [] ∨ ∃ cs, f.stream.course p f.world = .ok cs) : Along p ix w f
  | complete (hstream : f.stream = .idle .ended) (hindex : f.index = (discover p ix w).index)
      (hshown : f.shown = (discover p ix w).results)
      (hfailure : f.failure = (discover p ix w).failure) : Along p ix w f

theorem along_start (p : Provider σ) (ix : Index) (w : World σ) : Along p ix w (start ix w) := by
  have hnone : ix.Takes [] := trivial
  refine .underway hnone rfl rfl rfl ?_ (.inl rfl)
  cases hcourse : (Stream.idle .unstarted).course p w with
  | error e => rw [start, hcourse]; rfl
  | ok cs => rw [start, hcourse]; rfl

theorem shown_receive (hhand : f.hand = none) (st : Stretch σ) :
    (f.receive st).shown = f.shown ++ (f.receive st).hand.toList := by
  rw [shown, shown, hhand, Option.toList_none, List.append_nil]
  rfl

theorem Along.receive (h : Along p ix w f) (hhand : f.hand = none) :
    Along p ix w (f.receive (f.stream.step p f.index f.world)) := by
  cases h with
  | @underway before htakes hindex hshown hfailure hcourse hfirst =>
      have hgoes := Stream.goes p f.stream f.index f.world
      have hadds := shown_receive hhand (f.stream.step p f.index f.world)
      generalize f.stream.step p f.index f.world = st at hgoes hadds
      rw [hshown] at hadds
      cases hgoes with
      | @waits t v hrest =>
          refine .underway htakes hindex (hadds.trans (List.append_nil _)) hfailure ?_ ?_
          · exact hcourse.trans (congrArg _ hrest.symm)
          · exact hfirst.imp_right fun ⟨cs, hcs⟩ => ⟨cs, hrest.trans hcs⟩
      | @reports c cs t jx v hfound hadd hrest =>
          rw [hindex] at hadd
          have hmore : ix.Takes (before ++ [c]) :=
            Index.takes_append.2 ⟨htakes, by rw [hadd], trivial⟩
          refine .underway hmore ?_ ?_ hfailure ?_ (.inr ⟨cs, hrest⟩)
          · rw [Index.addAll_append, Index.addAll_cons, hadd]
            rfl
          · rw [hadds, List.map_append]
            rfl
          · change _ = (Stream.course p t v).map _
            rw [hcourse, hfound, hrest]
            simp [Except.map]
      | @refused c cs e jx v hfound hadd =>
          rw [hindex] at hadd
          have hentered := Index.enterAll_of_refused cs htakes (by rw [hadd])
          rw [hfound] at hcourse
          obtain ⟨-, hfollows⟩ := discover_of_course ix hcourse
          refine .complete rfl ?_ ?_ ?_
          · rw [hfollows.index, hentered, hadd]
            rfl
          · rw [hadds, hfollows.results, hentered]
            exact List.append_nil _
          · rw [hfollows.failure, hentered]
            change f.failure.or _ = _
            rw [hfailure]
            rfl
      | @ends v hfound =>
          have hentered := Index.enterAll_of_takes htakes
          rw [hfound, Except.map, List.append_nil] at hcourse
          obtain ⟨-, hfollows⟩ := discover_of_course ix hcourse
          refine .complete rfl ?_ ?_ ?_
          · rw [hfollows.index, hentered]
            exact hindex
          · rw [hadds, hfollows.results, hentered]
            exact List.append_nil _
          · rw [hfollows.failure, hentered]
            exact hfailure
      | @unavailable e v hfound =>
          rw [hfound] at hcourse hfirst
          obtain rfl : before = [] := hfirst.resolve_right (by rintro ⟨cs, hcs⟩; cases hcs)
          obtain ⟨-, u, hpass⟩ := discover_of_unlisted ix hcourse
          refine .complete rfl ?_ ?_ ?_
          · rw [hpass]
            exact hindex
          · rw [hadds, hpass]
            rfl
          · rw [hpass]
            exact hfailure
  | complete hstream hindex hshown hfailure =>
      rw [hstream]
      refine .complete rfl hindex ?_ hfailure
      rw [shown_receive hhand, hshown]
      exact List.append_nil _

/-- Results that go from hand to the queue, or are taken from there, were shown before. -/
theorem Along.regroup {g : Feed σ} (h : Along p ix w f) (hshown : g.shown = f.shown)
    (hindex : g.index = f.index) (hfailure : g.failure = f.failure) (hstream : g.stream = f.stream)
    (hworld : g.world = f.world) : Along p ix w g := by
  cases h with
  | underway htakes hf hresults hnone hcourse hfirst =>
      rw [← hstream, ← hworld] at hcourse hfirst
      exact .underway htakes (hindex.trans hf) (hshown.trans hresults) (hfailure.trans hnone)
        hcourse hfirst
  | complete hended hf hresults hfailed =>
      exact .complete (hstream.trans hended) (hindex.trans hf) (hshown.trans hresults)
        (hfailure.trans hfailed)

theorem along_run (p : Provider σ) (capacity : Nat) (ix : Index) (w : World σ)
    (turns : List Turn) : Along p ix w ((start ix w).run p capacity turns) := by
  refine run_induction (P := Along p ix w) ?_ (along_start p ix w) turns
  intro f turn h
  cases turn with
  | search =>
      rw [move]
      split
      · next hhand => exact h.receive hhand
      · next r hhand =>
          split
          · exact h
          · refine h.regroup ?_ rfl rfl rfl rfl
            simp [shown, put, hhand]
  | reader =>
      rw [move]
      split
      · exact h
      · next r rest hqueued =>
          refine h.regroup ?_ rfl rfl rfl rfl
          simp [shown, hqueued]

/-- The clusters of the results of a pass. -/
def reported (p : Provider σ) (ix : Index) (w : World σ) : List Cluster :=
  (ix.enterAll (Search.reports p w)).taken

/-- The results of a pass are the paths of clusters, unless the zones cannot be listed. -/
theorem results_discover (p : Provider σ) (ix : Index) (w : World σ) :
    (discover p ix w).results = (reported p ix w).map (fun c => .path c.path) ∨
      reported p ix w = [] ∧ ∃ e, (discover p ix w).results = [.failed (.unavailable e)] := by
  cases hcourse : (Stream.idle .unstarted).course p w with
  | error e =>
      obtain ⟨hreports, v, hpass⟩ := discover_of_unlisted ix hcourse
      exact .inr ⟨by rw [reported, hreports]; rfl, e, by rw [hpass]⟩
  | ok cs =>
      obtain ⟨hreports, hfollows⟩ := discover_of_course ix hcourse
      exact .inl (by rw [hfollows.results, reported, hreports])

theorem Along.shown_prefix (h : Along p ix w f) : f.shown <+: (discover p ix w).results := by
  cases h with
  | @underway before htakes _ hshown _ hcourse hfirst =>
      rw [hshown]
      cases hrest : f.stream.course p f.world with
      | error e =>
          rw [hrest] at hfirst
          obtain rfl : before = [] := hfirst.resolve_right (by rintro ⟨cs, hcs⟩; cases hcs)
          exact List.nil_prefix
      | ok cs =>
          rw [hrest] at hcourse
          rw [(discover_of_course ix hcourse).2.results, Index.enterAll_append cs htakes,
            List.map_append]
          exact List.prefix_append _ _
  | complete _ _ hshown _ => rw [hshown]

/-- A finished search has done what the pass does. -/
theorem Along.of_finished (h : Along p ix w f) (hf : f.IsFinished) :
    f.shown = (discover p ix w).results ∧ f.index = (discover p ix w).index ∧
      f.failure = (discover p ix w).failure := by
  cases h with
  | @underway before htakes hindex hshown hfailure hcourse _ =>
      have hrest : f.stream.course p f.world = .ok [] := by
        rw [hf.2]
        rfl
      rw [hrest, Except.map, List.append_nil] at hcourse
      have hfollows := (discover_of_course ix hcourse).2
      have hentered := Index.enterAll_of_takes htakes
      refine ⟨?_, ?_, ?_⟩
      · rw [hshown, hfollows.results, hentered]
      · rw [hindex, hfollows.index, hentered]
      · rw [hfailure, hfollows.failure, hentered]
  | complete _ hindex hshown hfailure => exact ⟨hshown, hindex, hfailure⟩

/-- The index is what the clusters of the results so far make of it. A report that stops the search
is not among them, and if it could be one it has left the index as it was. -/
theorem Along.index_eq (h : Along p ix w f)
    (hkeyed : f.failure = none ∨ ∀ c ∈ Search.reports p w, c.IsKeyed) :
    f.index = ix.addAll ((reported p ix w).take f.shown.length) := by
  cases h with
  | @underway before htakes hindex hshown _ hcourse hfirst =>
      have htaken : (reported p ix w).take before.length = before := by
        cases hrest : f.stream.course p f.world with
        | error e =>
            rw [hrest] at hfirst
            obtain rfl : before = [] := hfirst.resolve_right (by rintro ⟨cs, hcs⟩; cases hcs)
            rfl
        | ok cs =>
            rw [hrest] at hcourse
            rw [reported, (discover_of_course ix hcourse).1, Index.enterAll_append cs htakes]
            exact List.take_left
      rw [hshown, List.length_map, htaken, hindex]
  | complete _ hindex hshown hfailure =>
      rw [hindex, hshown]
      rw [hfailure] at hkeyed
      cases hcourse : (Stream.idle .unstarted).course p w with
      | error e =>
          obtain ⟨hreports, v, hpass⟩ := discover_of_unlisted ix hcourse
          rw [hpass, reported, hreports]
          rfl
      | ok cs =>
          obtain ⟨hreports, hfollows⟩ := discover_of_course ix hcourse
          rw [hreports, hfollows.failure] at hkeyed
          rw [hfollows.index, hfollows.results, List.length_map, reported, hreports,
            List.take_length]
          rcases Index.takes_or_refused ix cs with htakes | ⟨done, c, rest, e, rfl, htakes, hc⟩
          · rw [Index.enterAll_of_takes htakes]
          · have hentered := Index.enterAll_of_refused rest htakes hc
            rw [hentered] at hkeyed ⊢
            have hcould : c.IsKeyed := hkeyed.resolve_left (by simp) c (by simp)
            exact Index.add_eq_of_refused hcould hc

end Feed
end Store
end KubeAtlas
