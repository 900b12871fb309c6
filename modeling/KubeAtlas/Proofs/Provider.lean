import KubeAtlas.Provider
/-!
# Actions and the requests they make

How an action goes is known from how its parts go: `perform` of a sequence is `perform` of the
parts, up to the first failure. To speak of the requests that an action makes, a provider can be
watched: it then keeps the list of its requests beside its own state and behaves as before.
-/

namespace KubeAtlas

def World.recordAll {σ : Type} (w : World σ) (es : List Entry) : World σ := es.foldl World.record w

namespace Action

variable {σ α β : Type}

theorem perform_liftM (r : Except Failure α) (w : World σ) :
    (liftM r : Action σ α).perform w = (r, w) := by
  cases r <;> rfl

theorem liftM_map (r : Except Failure α) (f : α → β) :
    (liftM (r.map f) : Action σ β) = (do pure (f (← liftM r))) := by
  cases r <;> rfl

theorem perform_bind (a : Action σ α) (next : α → Action σ β) (w : World σ) :
    (a >>= next).perform w = match a.perform w with
      | (.ok x, w) => (next x).perform w
      | (.error e, w) => (.error e, w) := by
  unfold perform ExceptT.run StateT.run
  simp only [bind, ExceptT.bind, ExceptT.mk, StateT.bind]
  rcases a w with ⟨e | x, v⟩ <;> rfl

theorem perform_tryCatch (a : Action σ α) (handle : Failure → Action σ α) (w : World σ) :
    (tryCatch a handle).perform w = match a.perform w with
      | (.ok x, w) => (.ok x, w)
      | (.error e, w) => (handle e).perform w := by
  unfold perform ExceptT.run StateT.run
  simp only [tryCatch, tryCatchThe, MonadExceptOf.tryCatch, ExceptT.tryCatch, ExceptT.mk, bind,
    StateT.bind]
  rcases a w with ⟨e | x, v⟩ <;> rfl

theorem perform_journal (change : Journal → Except Failure Journal) (w : World σ) :
    (journal change : Action σ Unit).perform w = match change w.journal with
      | .ok j => (.ok (), { w with journal := j })
      | .error e => (.error e, w) := by
  change (liftM (change w.journal) >>= fun j => _ : Action σ Unit).perform w = _
  rw [perform_bind, perform_liftM]
  cases change w.journal <;> rfl

end Action

/-! ### Watching a provider -/

inductive Call where
  | zones
  | clusters (endpoint : Datum)
  | kubeconfig (endpoint id : Datum) (grant : Grant)

namespace World

variable {σ : Type}

def watched (w : World σ) : World (σ × List Call) := ⟨(w.outside, []), w.journal⟩

def unwatched (w : World (σ × List Call)) : World σ := ⟨w.outside.1, w.journal⟩

theorem unwatched_watched (w : World σ) : w.watched.unwatched = w := rfl

theorem unwatched_record (w : World (σ × List Call)) (e : Entry) :
    (w.record e).unwatched = w.unwatched.record e := rfl

theorem unwatched_recordAll (w : World (σ × List Call)) (es : List Entry) :
    (w.recordAll es).unwatched = w.unwatched.recordAll es := by
  induction es generalizing w with
  | nil => rfl
  | cons e es ih => exact ih (w.record e)

theorem outside_recordAll (w : World σ) (es : List Entry) :
    (w.recordAll es).outside = w.outside := by
  induction es generalizing w with
  | nil => rfl
  | cons e es ih => exact ih (w.record e)

end World

namespace Action

variable {σ α : Type}

def watched (call : Call) (a : Action σ α) : Action (σ × List Call) α :=
  ExceptT.mk fun w =>
    let (result, v) := a.perform ⟨w.outside.1, w.journal⟩
    (result, ⟨(v.outside, w.outside.2 ++ [call]), v.journal⟩)

def calls (a : Action (σ × List Call) α) (w : World σ) : List Call :=
  (a.perform w.watched).2.outside.2

theorem perform_watched (call : Call) (a : Action σ α) (w : World (σ × List Call)) :
    (a.watched call).perform w = ((a.perform ⟨w.outside.1, w.journal⟩).1,
      ⟨((a.perform ⟨w.outside.1, w.journal⟩).2.outside, w.outside.2 ++ [call]),
        (a.perform ⟨w.outside.1, w.journal⟩).2.journal⟩) := rfl

/-- A watched action goes as it goes unwatched, and is noted once. -/
theorem exists_perform_watched (call : Call) (a : Action σ α) (w : World (σ × List Call)) :
    ∃ v, (a.watched call).perform w = ((a.perform w.unwatched).1, v) ∧
      v.unwatched = (a.perform w.unwatched).2 ∧ v.outside.2 = w.outside.2 ++ [call] :=
  ⟨_, perform_watched call a w, rfl, rfl⟩

end Action

def Provider.watched {σ : Type} (p : Provider σ) : Provider (σ × List Call) where
  zones := p.zones.watched .zones
  clusters endpoint := (p.clusters endpoint).watched (.clusters endpoint)
  kubeconfig endpoint id grant :=
    (p.kubeconfig endpoint id grant).watched (.kubeconfig endpoint id grant)

end KubeAtlas
