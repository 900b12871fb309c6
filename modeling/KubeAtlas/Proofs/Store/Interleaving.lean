import KubeAtlas.Proofs.Store.Served
import KubeAtlas.Proofs.Store.Stream
/-!
# Resolutions between searches

A store serves paths while searches go on, and each of them is left at every request to the
provider. `Tasks` is what the searches and the resolutions that share an index have come to, and an
event moves one of them on by a stretch: a search is opened, asked for a result, answered or closed,
a path is looked up, or the answer for a path arrives. The answers are part of the events, so that
nothing is assumed about the provider.

A resolution looks at the index once, before it makes its request, and never writes to it. So it
comes to what it comes to alone on the index as it was then, whatever happens before the answer is
there (`resolution_run`), and the searches do not notice it (`forget_run`).
-/

namespace KubeAtlas

namespace Store

open Cluster (Index)

/-! ### Resolutions -/

/-- A path that is to be served: the requests that were made for it, and its outcome, or the name
under which the answer will be served. -/
structure Resolution where
  path : String
  calls : List Call
  stage : String ⊕ Except Failure String

namespace Resolution

/-- What can be said before the provider has answered. -/
def begin (ix : Index) (path : String) : Resolution :=
  match locate ix path with
  | .error e => ⟨path, [], .inr (.error e)⟩
  | .ok (c, name) => ⟨path, [.kubeconfig c.endpoint c.id fullGrant], .inl name⟩

def obtain (write : Writer) (r : Resolution) (answer : Except Failure Datum) : Resolution :=
  match r.stage with
  | .inl name =>
    { r with stage := .inr (match answer with
      | .error e => .error (.atPath .generation r.path e)
      | .ok d => materialize write r.path name d) }
  | .inr _ => r

def settle (write : Writer) (r : Resolution) : Option (Except Failure Datum) → Resolution
  | some answer => r.obtain write answer
  | none => r

def outcome? (r : Resolution) : Option (Except Failure String) := r.stage.getRight?

theorem settle_settle (write : Writer) (r : Resolution)
    (first later : Option (Except Failure Datum)) :
    (r.settle write first).settle write later = r.settle write (first.or later) := by
  rcases r with ⟨path, calls, name | outcome⟩ <;> cases first <;> cases later <;> rfl

theorem calls_settle (write : Writer) (r : Resolution) (answer? : Option (Except Failure Datum)) :
    (r.settle write answer?).calls = r.calls := by
  rcases r with ⟨path, calls, name | outcome⟩ <;> cases answer? <;> rfl

theorem calls_of_lookup (ix : Index) (path : String) :
    (begin ix path).calls = match Cluster.splitPath path with
      | .error _ => []
      | .ok (zone, name) => match ix.lookup zone name with
        | none => []
        | some c => [.kubeconfig c.endpoint c.id fullGrant] := by
  rw [begin, locate]
  rcases Cluster.splitPath path with e | ⟨zone, name⟩
  · rfl
  · simp only [bind, Except.bind]
    cases ix.lookup zone name with
    | none => rfl
    | some c => rfl

theorem calls_begin {σ : Type} (q : Provider σ) (write : Writer) (ix : Index) (path : String)
    (v : World σ) : (begin ix path).calls = (kubeconfig q.watched write ix path).calls v := by
  rw [calls_kubeconfig, begin]
  rcases locate ix path with e | ⟨c, name⟩
  · rfl
  · rfl

/-- With the answer that its request would get alone, a resolution comes to what it comes to
alone. -/
theorem outcome_begin {σ : Type} (q : Provider σ) (write : Writer) {ix : Index} {path : String}
    (v : World σ) (answer? : Option (Except Failure Datum))
    (hanswer : ∀ c name, locate ix path = .ok (c, name) →
      answer? = some ((q.kubeconfig c.endpoint c.id fullGrant).perform v).1) :
    ((begin ix path).settle write answer?).outcome? =
      some ((kubeconfig q write ix path).perform v).1 := by
  rcases hlocate : locate ix path with e | ⟨c, name⟩
  · rw [perform_kubeconfig, begin, hlocate]
    cases answer? <;> rfl
  · rw [perform_kubeconfig, begin, hlocate, hanswer c name hlocate]
    rcases hrequest : (q.kubeconfig c.endpoint c.id fullGrant).perform v with ⟨e | d, u⟩
    · simp only [hrequest]
      rfl
    · simp only [hrequest]
      rfl

end Resolution

/-! ### Searches and resolutions in turn -/

/-- The searches and the resolutions that share an index. -/
structure Tasks where
  index : Index
  streams : List Stream
  /-- What the searches have shown, each with the number of its search. -/
  shown : List (Nat × Except Failure (Option SearchResult))
  resolutions : List Resolution
  world : World Unit

/-- What can happen. Searches and resolutions are known by their numbers. -/
inductive Event where
  | opens
  | asks (i : Nat)
  | lists (i : Nat) (answer : Except Failure (List Zone))
  | answers (i : Nat) (answer : Except Failure (List Listing))
  | closes (i : Nat)
  | begins (path : String)
  | obtains (k : Nat) (answer : Except Failure Datum)

namespace Event

def isSearch : Event → Bool
  | .begins _ | .obtains _ _ => false
  | _ => true

def answer? (k : Nat) : Event → Option (Except Failure Datum)
  | .obtains j answer => if j = k then some answer else none
  | _ => none

end Event

namespace Tasks

def move (s : Tasks) (i : Nat) (st : Stretch Unit) : Tasks :=
  { s with
    index := st.index
    streams := s.streams.set i st.stream
    shown := s.shown ++ (st.shown.map fun r => (i, r)).toList
    world := st.world }

/-- What an event does. An answer that no search or resolution waits for does nothing. -/
def next (write : Writer) (s : Tasks) : Event → Tasks
  | .opens => { s with streams := s.streams ++ [.idle .unstarted] }
  | .asks i => match s.streams[i]? with
    | some (.idle t) => s.move i (Stream.asked t s.index s.world)
    | _ => s
  | .lists i answer => match s.streams[i]? with
    | some .atZones => s.move i (Stream.listed answer s.index s.world)
    | _ => s
  | .answers i answer => match s.streams[i]? with
    | some (.atClusters z rest) => s.move i (Stream.answered z rest answer s.index s.world)
    | _ => s
  | .closes i => { s with streams := s.streams.set i (.idle .ended) }
  | .begins path => { s with resolutions := s.resolutions ++ [.begin s.index path] }
  | .obtains k answer =>
    { s with resolutions := s.resolutions.modify k fun r => r.obtain write answer }

def run (write : Writer) (s : Tasks) (events : List Event) : Tasks := events.foldl (next write) s

/-- The states of the index that the searches leave, one for each of their events. -/
def indexes (write : Writer) (s : Tasks) : List Event → List Index
  | [] => []
  | e :: events =>
    if e.isSearch then (s.next write e).index :: (s.next write e).indexes write events
    else (s.next write e).indexes write events

def forget (s : Tasks) : Tasks := { s with resolutions := [] }

variable {write : Writer} {s : Tasks}

theorem run_append (events more : List Event) :
    s.run write (events ++ more) = (s.run write events).run write more :=
  List.foldl_append

/-! ### What the searches do -/

theorem next_of_not_search {e : Event} (h : e.isSearch = false) :
    (s.next write e).forget = s.forget := by
  cases e with
  | begins path => rfl
  | obtains k answer => rfl
  | _ => cases h

theorem forget_next {e : Event} (h : e.isSearch = true) :
    (s.next write e).forget = s.forget.next write e := by
  cases e with
  | opens => rfl
  | closes i => rfl
  | asks i =>
      simp only [next, forget]
      split <;> rfl
  | lists i answer =>
      simp only [next, forget]
      split <;> rfl
  | answers i answer =>
      simp only [next, forget]
      split <;> rfl
  | begins path => cases h
  | obtains k answer => cases h

theorem forget_run (events : List Event) :
    (s.run write events).forget = s.forget.run write (events.filter Event.isSearch) := by
  induction events generalizing s with
  | nil => rfl
  | cons e events ih =>
      change ((s.next write e).run write events).forget = _
      rw [ih]
      cases he : e.isSearch with
      | true =>
          rw [forget_next he, List.filter_cons_of_pos he]
          rfl
      | false => rw [next_of_not_search he, List.filter_cons_of_neg (by simp [he])]

theorem indexes_filter (events : List Event) :
    s.indexes write events = s.forget.indexes write (events.filter Event.isSearch) := by
  induction events generalizing s with
  | nil => rfl
  | cons e events ih =>
      rw [indexes, ih]
      cases he : e.isSearch with
      | true =>
          rw [if_pos rfl, List.filter_cons_of_pos he, indexes, if_pos he, ← forget_next he]
          rfl
      | false =>
          rw [next_of_not_search he, List.filter_cons_of_neg (by simp [he])]
          rfl

/-! ### What the resolutions come to -/

/-- An event moves on the resolution that it brings an answer for, and no other. -/
theorem resolution_next {k : Nat} {r : Resolution} (h : s.resolutions[k]? = some r) (e : Event) :
    (s.next write e).resolutions[k]? = some (r.settle write (e.answer? k)) := by
  cases e with
  | opens => exact h
  | closes i => exact h
  | asks i =>
      simp only [next]
      split <;> exact h
  | lists i answer =>
      simp only [next]
      split <;> exact h
  | answers i answer =>
      simp only [next]
      split <;> exact h
  | begins path =>
      have hlt : k < s.resolutions.length := (List.getElem?_eq_some_iff.1 h).1
      exact (List.getElem?_append_left hlt).trans h
  | obtains j answer =>
      simp only [next, List.getElem?_modify, h, Event.answer?]
      split <;> rfl

/-- A resolution comes to what the first answer that arrives for it makes of it. -/
theorem resolution_run (write : Writer) {k : Nat} {r : Resolution} (h : s.resolutions[k]? = some r)
    (events : List Event) :
    (s.run write events).resolutions[k]? =
      some (r.settle write (events.findSome? (Event.answer? k))) := by
  induction events generalizing s r with
  | nil => exact h
  | cons e events ih =>
      have hfirst : (e :: events).findSome? (Event.answer? k) =
          (e.answer? k).or (events.findSome? (Event.answer? k)) := by
        rw [List.findSome?_cons]
        cases e.answer? k <;> rfl
      rw [hfirst, ← Resolution.settle_settle]
      exact ih (resolution_next h e)

end Tasks

/-- **Resolutions are atomic and leave no trace.** In every run from every state, a resolution makes
the requests and comes to the outcome that it comes to alone, on the index as it was when the path
was looked up and with the answer that arrives for it: no request if the path is malformed or leads
nowhere, otherwise one, for the cluster that was found. A resolution leaves the index and the
searches as they are, and without the resolutions the searches show the same and leave the same
states of the index. -/
theorem resolutions_atomic (write : Writer) (s : Tasks) (events : List Event) :
    (∀ before path after, events = before ++ .begins path :: after →
      let ix := (s.run write before).index
      let answer? := after.findSome? (Event.answer? (s.run write before).resolutions.length)
      ∃ r, (s.run write events).resolutions[(s.run write before).resolutions.length]? = some r ∧
        r.calls = (match Cluster.splitPath path with
          | .error _ => []
          | .ok (zone, name) => match ix.lookup zone name with
            | none => []
            | some c => [.kubeconfig c.endpoint c.id fullGrant]) ∧
        ∀ {σ : Type} (q : Provider σ) (v : World σ),
          r.calls = (kubeconfig q.watched write ix path).calls v ∧
          ((∀ c name, locate ix path = .ok (c, name) →
            answer? = some ((q.kubeconfig c.endpoint c.id fullGrant).perform v).1) →
          r.outcome? = some ((kubeconfig q write ix path).perform v).1)) ∧
    (∀ before e after, events = before ++ e :: after → e.isSearch = false →
      (s.run write (before ++ [e])).forget = (s.run write before).forget) ∧
    (s.run write events).forget = s.forget.run write (events.filter Event.isSearch) ∧
    s.indexes write events = s.forget.indexes write (events.filter Event.isSearch) := by
  refine ⟨?_, ?_, Tasks.forget_run events, Tasks.indexes_filter events⟩
  · rintro before path after rfl
    have hbegun : ((s.run write before).next write (.begins path)).resolutions[
        (s.run write before).resolutions.length]? =
          some (.begin (s.run write before).index path) := List.getElem?_concat_length
    have hrun := Tasks.resolution_run write hbegun after
    rw [Tasks.run_append]
    refine ⟨_, hrun, ?_, fun q v => ⟨?_, Resolution.outcome_begin q write v _⟩⟩
    · rw [Resolution.calls_settle]
      exact Resolution.calls_of_lookup _ path
    · rw [Resolution.calls_settle]
      exact Resolution.calls_begin q write _ path v
  · rintro before e after rfl he
    rw [Tasks.run_append]
    exact Tasks.next_of_not_search he

end Store
end KubeAtlas
