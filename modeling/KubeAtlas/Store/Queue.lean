import KubeAtlas.Store.Search
/-!
# Searching into a queue

The results of a search go into a queue of limited size, from which they are taken one by one. When
the queue is full the search waits with one more result in hand, so it is never more than one result
ahead of the queue. `advance` runs the search until it waits or has ended; the results that were
found and not yet taken are kept in one list, of which the queue holds the beginning.
-/

namespace KubeAtlas.Store

structure Queue (σ : Type) where
  /-- The size of the queue, unlimited if it is zero. -/
  capacity : Nat
  /-- The results that were found and not taken. -/
  found : List SearchResult
  failure : Option Failure
  search : Search
  index : Cluster.Index
  world : World σ

namespace Queue

variable {σ : Type}

def start (capacity : Nat) (ix : Cluster.Index) (w : World σ) : Queue σ :=
  ⟨capacity, [], none, .unstarted, ix, w⟩

/-- Runs the search until it waits or has ended. -/
def advance (p : Provider σ) (q : Queue σ) : Queue σ :=
  let pass :=
    if q.capacity = 0 then Search.drain p q.search q.index q.world
    else Search.pull p q.search q.index q.world (q.capacity + 1 - q.found.length)
  { q with
    found := q.found ++ pass.results
    failure := q.failure.or pass.failure
    search := pass.search
    index := pass.index
    world := pass.world }

def size (q : Queue σ) : Nat :=
  if q.capacity = 0 then q.found.length else min q.found.length q.capacity

def isFinished (q : Queue σ) : Bool := q.search.isEnded && q.size == q.found.length

def take (q : Queue σ) : Option (SearchResult × Queue σ) :=
  match q.found with
  | [] => none
  | r :: rest => some (r, { q with found := rest })

end Queue
end KubeAtlas.Store
