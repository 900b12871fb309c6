import KubeAtlas.Proofs.Provider
/-!
# Two runs side by side

What an action does in one world is compared with what another one does in a related world. The two
are coupled if their outcomes are related again, and so are the worlds that they leave. Coupled
actions are put together from coupled parts; a provider is coupled with another one if each of its
requests is.
-/

namespace KubeAtlas

/-- Both succeed, with related results, or both fail in the same way. -/
inductive Agree {α β : Type} (S : α → β → Prop) : Except Failure α → Except Failure β → Prop
  | ok {x : α} {y : β} (h : S x y) : Agree S (.ok x) (.ok y)
  | error (e : Failure) : Agree S (.error e) (.error e)

theorem Agree.refl {α : Type} (r : Except Failure α) : Agree Eq r r := by
  cases r with
  | ok x => exact .ok rfl
  | error e => exact .error e

theorem Agree.bind {α β γ δ : Type} {S : α → β → Prop} {T : γ → δ → Prop} {r : Except Failure α}
    {s : Except Failure β} {f : α → Except Failure γ} {g : β → Except Failure δ} (h : Agree S r s)
    (hnext : ∀ x y, S x y → Agree T (f x) (g y)) : Agree T (r >>= f) (s >>= g) := by
  cases h with
  | ok hxy => exact hnext _ _ hxy
  | error e => exact .error e

namespace Action

variable {σ τ α β γ δ : Type} {R : World σ → World τ → Prop}

/-- In related worlds the outcomes are related, and the worlds that are left. -/
def Coupled (R : World σ → World τ → Prop) (S : Except Failure α → Except Failure β → Prop)
    (a : Action σ α) (b : Action τ β) : Prop :=
  ∀ w v, R w v → S (a.perform w).1 (b.perform v).1 ∧ R (a.perform w).2 (b.perform v).2

theorem Coupled.imp {S T : Except Failure α → Except Failure β → Prop} {a : Action σ α}
    {b : Action τ β} (h : Coupled R S a b) (himp : ∀ r s, S r s → T r s) : Coupled R T a b :=
  fun w v hworlds => (h w v hworlds).imp_left (himp _ _)

theorem coupled_liftM {S : Except Failure α → Except Failure β → Prop} {r : Except Failure α}
    {s : Except Failure β} (h : S r s) :
    Coupled R S (liftM r : Action σ α) (liftM s : Action τ β) := by
  intro w v hworlds
  rw [perform_liftM, perform_liftM]
  exact ⟨h, hworlds⟩

theorem coupled_journal {change alter : Journal → Except Failure Journal}
    (h : ∀ w v, R w v → Agree (fun j k => R { w with journal := j } { v with journal := k })
      (change w.journal) (alter v.journal)) :
    Coupled R (Agree Eq) (journal change : Action σ Unit) (journal alter : Action τ Unit) := by
  intro w v hworlds
  have hagree := h w v hworlds
  rw [perform_journal, perform_journal]
  generalize change w.journal = r at hagree ⊢
  generalize alter v.journal = s at hagree ⊢
  cases hagree with
  | ok hleft => exact ⟨.ok rfl, hleft⟩
  | error e => exact ⟨.error e, hworlds⟩

theorem Coupled.bind {S : α → β → Prop} {T : Except Failure γ → Except Failure δ → Prop}
    {a : Action σ α} {b : Action τ β} {next : α → Action σ γ} {more : β → Action τ δ}
    (h : Coupled R (Agree S) a b) (herror : ∀ e, T (.error e) (.error e))
    (hnext : ∀ x y, S x y → Coupled R T (next x) (more y)) :
    Coupled R T (a >>= next) (b >>= more) := by
  intro w v hworlds
  have hfirst := h w v hworlds
  rw [perform_bind, perform_bind]
  generalize a.perform w = first at hfirst ⊢
  generalize b.perform v = second at hfirst ⊢
  obtain ⟨r, w'⟩ := first
  obtain ⟨s, v'⟩ := second
  obtain ⟨hagree, hleft⟩ := hfirst
  cases hagree with
  | ok hxy => exact hnext _ _ hxy w' v' hleft
  | error e => exact ⟨herror e, hleft⟩

/-- What is made of a result depends on the result alone, and leaves the world as it is. -/
theorem Coupled.bind_liftM {R : World σ → World σ → Prop} {P : Prop} {a b : Action σ α}
    (h : Coupled R (fun r s => P → r = s) a b) (f : α → Except Failure β) :
    Coupled R (fun r s => P → r = s) (do liftM (f (← a))) (do liftM (f (← b))) := by
  intro w v hworlds
  have hfirst := h w v hworlds
  rw [perform_bind, perform_bind]
  generalize a.perform w = first at hfirst ⊢
  generalize b.perform v = second at hfirst ⊢
  obtain ⟨r, w'⟩ := first
  obtain ⟨s, v'⟩ := second
  obtain ⟨hresults, hleft⟩ := hfirst
  constructor
  · intro hP
    obtain rfl : r = s := hresults hP
    cases r with
    | error e => rfl
    | ok x => simp only [perform_liftM]
  · cases r <;> cases s <;> simpa only [perform_liftM] using hleft

theorem Coupled.tryCatch {S : α → β → Prop} {a : Action σ α} {b : Action τ β}
    {handle : Failure → Action σ α} {treat : Failure → Action τ β} (h : Coupled R (Agree S) a b)
    (hhandle : ∀ e, Coupled R (Agree S) (handle e) (treat e)) :
    Coupled R (Agree S) (tryCatch a handle) (tryCatch b treat) := by
  intro w v hworlds
  have hfirst := h w v hworlds
  rw [perform_tryCatch, perform_tryCatch]
  generalize a.perform w = first at hfirst ⊢
  generalize b.perform v = second at hfirst ⊢
  obtain ⟨r, w'⟩ := first
  obtain ⟨s, v'⟩ := second
  obtain ⟨hagree, hleft⟩ := hfirst
  cases hagree with
  | ok hxy => exact ⟨.ok hxy, hleft⟩
  | error e => exact hhandle e w' v' hleft

end Action

/-- Two providers that answer alike. Kubeconfigs need only be the same if `same` holds. -/
structure Provider.Coupled {σ τ : Type} (R : World σ → World τ → Prop) (same : Prop)
    (p : Provider σ) (q : Provider τ) : Prop where
  zones : Action.Coupled R Eq p.zones q.zones
  clusters : ∀ endpoint, Action.Coupled R Eq (p.clusters endpoint) (q.clusters endpoint)
  kubeconfig : ∀ endpoint id grant, Action.Coupled R (fun r s => same → r = s)
    (p.kubeconfig endpoint id grant) (q.kubeconfig endpoint id grant)

end KubeAtlas
