import KubeAtlas.Provider
/-!
# Searching for clusters

A search goes through the zones of a provider and reports every cluster as a path, entering it into
the index just before. It is lazy: `next` does no more than is needed for one result. A zone whose
clusters cannot be listed is recorded and passed over. If the zones cannot be listed there is one
result, the failure.

What is left of a search that has begun shrinks with every result, in zones or in the clusters of
the present zone, so that a search can be run to its end.
-/

namespace KubeAtlas.Store

def kind : String := "exoscale"

def loggerName : String := Journal.childName ("store." ++ kind)

def note (level : Level) (message : String) : Entry := ⟨level, loggerName, some kind, message⟩

inductive SearchResult where
  | path (p : String)
  | failed (f : Failure)

/-- What is left of a search. -/
inductive Search where
  | unstarted
  | reporting (zone : Zone) (found : List Listing) (rest : List Zone)
  | ended

/-- The outcome of asking for a result: none at the end, or what stopped the search. -/
structure Step (σ : Type) where
  result : Except Failure (Option SearchResult)
  search : Search
  index : Cluster.Index
  world : World σ

namespace Search

variable {σ : Type}

def report (zone : Zone) (c : Listing) (found : List Listing) (rest : List Zone)
    (ix : Cluster.Index) (w : World σ) : Step σ :=
  let cluster : Cluster := ⟨c.id, c.name, zone.name, zone.endpoint⟩
  match ix.add cluster with
  | (ix, some e) => ⟨throw e, .ended, ix, w⟩
  | (ix, none) =>
    let message := s!"Discovered SKS cluster name: {c.name.text} and id: {c.id.text} " ++
      s!"in zone {zone.name.text}"
    ⟨pure (some (.path cluster.path)), .reporting zone found rest, ix,
      w.record (note .debug message)⟩

def fromZones (p : Provider σ) (ix : Cluster.Index) : List Zone → World σ → Step σ
  | [], w => ⟨pure none, .ended, ix, w⟩
  | z :: rest, w =>
    match (p.clusters z.endpoint).perform w with
    | (.error e, w) =>
      fromZones p ix rest (w.record (note .warning (Failure.zone z.name e.message).message))
    | (.ok [], w) =>
      fromZones p ix rest
        (w.record (note .debug s!"No SKS clusters found in zone {z.name.text}"))
    | (.ok (c :: found), w) => report z c found rest ix w

def start (p : Provider σ) (ix : Cluster.Index) (w : World σ) : Step σ :=
  match p.zones.perform (w.record (note .debug "Exoscale: start search")) with
  | (.error e, w) => ⟨pure (some (.failed (.unavailable e))), .ended, ix, w⟩
  | (.ok [], w) =>
    ⟨pure none, .ended, ix, w.record (note .debug "No Exoscale zones found")⟩
  | (.ok zones, w) => fromZones p ix zones w

def next (p : Provider σ) (s : Search) (ix : Cluster.Index) (w : World σ) : Step σ :=
  match s with
  | .unstarted => start p ix w
  | .reporting zone (c :: found) rest => report zone c found rest ix w
  | .reporting _ [] rest => fromZones p ix rest w
  | .ended => ⟨pure none, .ended, ix, w⟩

/-- The zones and clusters that are left of a search that has begun. -/
def size : Search → Nat × Nat
  | .unstarted | .ended => (0, 0)
  | .reporting _ found rest => (rest.length + 1, found.length)

/-- Whether one size is less than another: by zones, then by clusters. -/
def Smaller (a b : Nat × Nat) : Prop := Prod.Lex (· < ·) (· < ·) a b

def Found (s : Step σ) : Prop := ∃ r, s.result = .ok (some r)

theorem size_report (zone : Zone) (c : Listing) (found : List Listing) (rest : List Zone)
    (ix : Cluster.Index) (w : World σ) (h : Found (report zone c found rest ix w)) :
    (report zone c found rest ix w).search = .reporting zone found rest := by
  obtain ⟨r, hr⟩ := h
  simp only [report] at hr ⊢
  split <;> rename_i hadd
  · rw [hadd] at hr
    simp [throw, throwThe, MonadExceptOf.throw] at hr
  · rfl

theorem fst_size_fromZones (p : Provider σ) (ix : Cluster.Index) (zones : List Zone) (w : World σ)
    (h : Found (fromZones p ix zones w)) :
    (fromZones p ix zones w).search.size.1 ≤ zones.length := by
  induction zones generalizing w with
  | nil => simp [fromZones, size]
  | cons z rest ih =>
    simp only [fromZones] at h ⊢
    split at h
    · exact Nat.le_succ_of_le (ih _ h)
    · exact Nat.le_succ_of_le (ih _ h)
    · rw [size_report z _ _ rest ix _ h]
      simp [size]

/-- Every result leaves less of a search that has begun. -/
theorem size_next (p : Provider σ) (zone : Zone) (found : List Listing) (rest : List Zone)
    (ix : Cluster.Index) (w : World σ) (h : Found (next p (.reporting zone found rest) ix w)) :
    Smaller (next p (.reporting zone found rest) ix w).search.size
      (Search.reporting zone found rest).size := by
  cases found with
  | nil => exact Prod.Lex.left _ _ (Nat.lt_succ_of_le (fst_size_fromZones p ix rest w h))
  | cons c found =>
    simp only [next] at h ⊢
    rw [size_report zone c found rest ix w h]
    exact Prod.Lex.right _ (Nat.lt_succ_self _)

end Search

/-- The results of a search, what stopped it if anything did, and what is left. -/
structure Pass (σ : Type) where
  results : List SearchResult
  failure : Option Failure
  search : Search
  index : Cluster.Index
  world : World σ

def Pass.after {σ : Type} (r : SearchResult) (p : Pass σ) : Pass σ :=
  { p with results := r :: p.results }

namespace Search

variable {σ : Type}

/-- At most `n` results. Fewer are found only at the end. -/
def pull (p : Provider σ) (s : Search) (ix : Cluster.Index) (w : World σ) : Nat → Pass σ
  | 0 => ⟨[], none, s, ix, w⟩
  | n + 1 =>
    match next p s ix w with
    | ⟨.ok (some r), s, ix, w⟩ => (pull p s ix w n).after r
    | ⟨.ok none, s, ix, w⟩ => ⟨[], none, s, ix, w⟩
    | ⟨.error e, s, ix, w⟩ => ⟨[], some e, s, ix, w⟩

def finish (p : Provider σ) (zone : Zone) (found : List Listing) (rest : List Zone)
    (ix : Cluster.Index) (w : World σ) : Pass σ :=
  match _hs : next p (.reporting zone found rest) ix w with
  | ⟨.ok (some r), .reporting zone found rest, ix, w⟩ => (finish p zone found rest ix w).after r
  | ⟨.ok (some r), s, ix, w⟩ => ⟨[r], none, s, ix, w⟩
  | ⟨.ok none, s, ix, w⟩ => ⟨[], none, s, ix, w⟩
  | ⟨.error e, s, ix, w⟩ => ⟨[], some e, s, ix, w⟩
termination_by (rest.length + 1, found.length)
decreasing_by
  have h := size_next p _ _ _ _ _ ⟨_, congrArg Step.result _hs⟩
  rw [_hs] at h
  exact h

def drain (p : Provider σ) (s : Search) (ix : Cluster.Index) (w : World σ) : Pass σ :=
  match next p s ix w with
  | ⟨.ok (some r), .reporting zone found rest, ix, w⟩ => (finish p zone found rest ix w).after r
  | ⟨.ok (some r), s, ix, w⟩ => ⟨[r], none, s, ix, w⟩
  | ⟨.ok none, s, ix, w⟩ => ⟨[], none, s, ix, w⟩
  | ⟨.error e, s, ix, w⟩ => ⟨[], some e, s, ix, w⟩

def isEnded : Search → Bool
  | .ended => true
  | _ => false

end Search

def discover {σ : Type} (p : Provider σ) (ix : Cluster.Index) (w : World σ) : Pass σ :=
  Search.drain p .unstarted ix w

end KubeAtlas.Store
