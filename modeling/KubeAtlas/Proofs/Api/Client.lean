import KubeAtlas.Api.Client
import KubeAtlas.Proofs.Journal
import KubeAtlas.Proofs.Json
/-!
# What the client makes of an answer

The client takes two members out of every item of a list, and leaves out the items that lack one of
them. It does not look at what the members are, so they are whatever a JSON text can hold. Anything
else that is wrong with an answer is a failure of the request.

The client records its requests and answers, but never a warning: over a discreet transport it is a
discreet provider.
-/

namespace KubeAtlas

namespace Action

variable {σ α β : Type}

def Yields (a : Action σ α) (P : α → Prop) : Prop := ∀ w x, (a.perform w).1 = .ok x → P x

theorem yields_true (a : Action σ α) : a.Yields fun _ => True := fun _ _ _ => trivial

theorem yields_liftM {r : Except Failure α} {P : α → Prop} (h : ∀ x, r = .ok x → P x) :
    (liftM r : Action σ α).Yields P := by
  intro w x hx
  rw [perform_liftM] at hx
  exact h x hx

theorem Yields.bind {a : Action σ α} {next : α → Action σ β} {P : α → Prop} {Q : β → Prop}
    (ha : a.Yields P) (hnext : ∀ x, P x → (next x).Yields Q) : (a >>= next).Yields Q := by
  intro w y hy
  have hfirst := ha w
  rw [perform_bind] at hy
  rcases hperform : a.perform w with ⟨e | x, v⟩ <;> rw [hperform] at hy hfirst
  · cases hy
  · exact hnext x (hfirst x rfl) v y hy

end Action

namespace Api

structure Transport.IsDiscreet {σ : Type} (t : Transport σ) : Prop where
  send : ∀ r, (t.send r).IsDiscreet
  connect : ∀ timeout, (t.connect timeout).IsDiscreet

namespace Client

open Datum (IsJson)

variable {σ : Type}

def told (context : String) (r : Except Failure (List (Datum × Datum))) :
    Action σ (List (Datum × Datum)) := do
  let members ← r
  Action.journal fun j => j.response context members
  pure members

def receive (t : Transport σ) (url context : String) (request : Request) :
    Action σ (List (Datum × Datum)) := do
  let response ← tryCatch (t.send request) fun e => throw (unanswered context e)
  told context (interpret url response)

/-- A request is prepared and recorded, and then it is sent, over a connection of its own if none is
shared. -/
theorem exchange_eq (c : Client) (t : Transport σ) (method : String) (endpoint : Datum)
    (path : String) (payload : Option (List (Datum × Datum))) :
    c.exchange t method endpoint path payload = (do
      let base ← endpointUrl endpoint
      let request ← c.prepare method (base ++ path) payload
      let context := s!"{method} {base ++ path}"
      Action.journal fun j => j.request context (payload.getD [])
      if c.shared then receive t (base ++ path) context request
      else do
        t.connect c.timeout
        receive t (base ++ path) context request) := by
  rw [exchange]
  cases c.shared <;> rfl

theorem perform_told (context : String) (r : Except Failure (List (Datum × Datum)))
    (w : World σ) : (told context r).perform w = match r with
      | .error e => (.error e, w)
      | .ok members => match w.journal.response context members with
        | .error e => (.error e, w)
        | .ok j => (.ok members, { w with journal := j }) := by
  rw [told, Action.perform_bind, Action.perform_liftM]
  cases r with
  | error e => rfl
  | ok members =>
      simp only [Action.perform_bind, Action.perform_journal]
      cases w.journal.response context members <;> rfl

theorem perform_receive (t : Transport σ) (url context : String) (request : Request)
    (w : World σ) : (receive t url context request).perform w =
      match (t.send request).perform w with
      | (.error e, v) => (.error (unanswered context e), v)
      | (.ok r, v) => (told context (interpret url r)).perform v := by
  rw [receive, Action.perform_bind, Action.perform_tryCatch]
  rcases (t.send request).perform w with ⟨e | r, v⟩ <;> rfl

def kubeconfigOf (cluster : String) (members : List (Datum × Datum)) : Except Failure Datum :=
  match ((Datum.map members).get? "kubeconfig").filter Datum.isTruthy with
  | some d => pure d
  | none => throw (.api (.noKubeconfig cluster))

theorem kubeconfig_eq (c : Client) (t : Transport σ) (endpoint cluster : Datum) (g : Grant) :
    c.kubeconfig t endpoint cluster g = (do
      let members ← c.exchange t "POST" endpoint ("/sks-cluster-kubeconfig/" ++ cluster.text)
        (some [(.str "groups", .list g.groups), (.str "user", g.user), (.str "ttl", g.ttl)])
      liftM (kubeconfigOf cluster.text members)) := by
  refine bind_congr fun members => ?_
  rw [kubeconfigOf]
  cases ((Datum.map members).get? "kubeconfig").filter Datum.isTruthy <;> rfl

/-- Over a shared connection, a request that was made is recorded and goes out. -/
theorem perform_exchange {c : Client} {t : Transport σ} {method base path : String}
    {endpoint : Datum} {payload : Option (List (Datum × Datum))} {request : Request}
    {w : World σ} {j : Journal} (hbase : endpointUrl endpoint = .ok base)
    (hprepare : c.prepare method (base ++ path) payload = .ok request)
    (hrequest : w.journal.request s!"{method} {base ++ path}" (payload.getD []) = .ok j)
    (hshared : c.shared = true) :
    (c.exchange t method endpoint path payload).perform w =
      (receive t (base ++ path) s!"{method} {base ++ path}" request).perform
        { w with journal := j } := by
  rw [exchange_eq]
  simp only [Action.perform_bind, Action.perform_liftM, Action.perform_journal, hbase, hprepare,
    hrequest, hshared, if_true]

/-! ### What is recorded -/

section Discreet

variable {t : Transport σ}

theorem isDiscreet_receive (ht : t.IsDiscreet) (url context : String) (request : Request) :
    (receive t url context request).IsDiscreet := by
  refine .bind (.tryCatch (ht.send request) fun e => Action.isDiscreet_liftM (.error _))
    fun response => ?_
  refine .bind (Action.isDiscreet_liftM _) fun members => ?_
  exact .bind (Action.isDiscreet_journal fun h => (Journal.noted_response h).graves_eq) fun _ =>
    Action.isDiscreet_liftM (.ok members)

theorem isDiscreet_exchange (c : Client) (ht : t.IsDiscreet) (method : String) (endpoint : Datum)
    (path : String) (payload : Option (List (Datum × Datum))) :
    (c.exchange t method endpoint path payload).IsDiscreet := by
  rw [exchange_eq]
  refine .bind (Action.isDiscreet_liftM _) fun base => ?_
  refine .bind (Action.isDiscreet_liftM _) fun request => ?_
  refine .bind (Action.isDiscreet_journal fun h => (Journal.noted_request h).graves_eq) fun _ => ?_
  split
  · exact isDiscreet_receive ht _ _ request
  · exact .bind (ht.connect c.timeout) fun _ => isDiscreet_receive ht _ _ request

theorem isDiscreet_provider (c : Client) (ht : t.IsDiscreet) : (c.provider t).IsDiscreet where
  zones := .bind (c.isDiscreet_exchange ht _ _ _ _) fun _ =>
    .bind (Action.isDiscreet_liftM _) fun _ => Action.isDiscreet_liftM (.ok _)
  clusters _ := .bind (c.isDiscreet_exchange ht _ _ _ _) fun _ =>
    .bind (Action.isDiscreet_liftM _) fun _ => Action.isDiscreet_liftM (.ok _)

end Discreet

/-! ### What is listed -/

theorem isJson_interpret {url : String} {r : Response} {members : List (Datum × Datum)}
    (h : interpret url r = .ok members) : IsJson (.map members) := by
  rw [interpret] at h
  split at h
  · obtain ⟨text, -, h⟩ := bind_eq_ok_iff.1 h
    cases h
  · split at h
    · cases h
      exact .map (by simp) (by simp)
    · split at h
      · cases h
      · next found hread =>
          cases h
          exact Json.isJson_read hread
      · cases h

theorem receive_yields (t : Transport σ) (url context : String) (request : Request) :
    (receive t url context request).Yields fun members => IsJson (.map members) := by
  refine (Action.yields_true _).bind fun response _ => ?_
  refine (Action.yields_liftM fun _ => isJson_interpret).bind fun members hmembers => ?_
  refine (Action.yields_true _).bind fun _ _ => ?_
  exact Action.yields_liftM fun found hfound => Except.ok.inj hfound ▸ hmembers

theorem exchange_yields (c : Client) (t : Transport σ) (method : String) (endpoint : Datum)
    (path : String) (payload : Option (List (Datum × Datum))) :
    (c.exchange t method endpoint path payload).Yields fun members => IsJson (.map members) := by
  rw [exchange_eq]
  refine (Action.yields_true _).bind fun base _ => ?_
  refine (Action.yields_true _).bind fun request _ => ?_
  refine (Action.yields_true _).bind fun _ _ => ?_
  split
  · exact receive_yields t _ _ request
  · exact (Action.yields_true _).bind fun _ _ => receive_yields t _ _ request

theorem isJson_itemsOf {d : Datum} {items : List Datum} (hd : d.IsJson)
    (h : itemsOf d = .ok items) : ∀ item ∈ items, item.IsJson := by
  cases hd with
  | @scalar s text htext =>
      cases s with
      | str s =>
          cases h
          exact List.forall_mem_map.2 fun c _ => Datum.isJson_str _
      | bytes b =>
          cases htext
      | _ => cases h
  | list hitems =>
      cases h
      exact hitems
  | map hnames _ =>
      cases h
      refine List.forall_mem_map.2 fun e he => ?_
      obtain ⟨name, hname⟩ := hnames e he
      exact hname ▸ Datum.isJson_str name

theorem isJson_twoMembers {first second : String} {d a b : Datum} (hd : d.IsJson)
    (h : twoMembers first second d = .ok (some (a, b))) : a.IsJson ∧ b.IsJson := by
  unfold twoMembers at h
  split at h
  · split at h
    · next ha hb =>
        cases h
        exact ⟨hd.get? (Option.filter_eq_some_iff.1 ha).1,
          hd.get? (Option.filter_eq_some_iff.1 hb).1⟩
    · cases h
  · cases h

theorem isJson_listMembers {members : List (Datum × Datum)} {name first second : String}
    {found : List (Datum × Datum)} (hmembers : IsJson (.map members))
    (h : listMembers members name first second = .ok found) :
    ∀ e ∈ found, e.1.IsJson ∧ e.2.IsJson := by
  rw [listMembers] at h
  split at h
  · cases h
    simp
  · next list hlist =>
      obtain ⟨items, hitems, h⟩ := bind_eq_ok_iff.1 h
      obtain ⟨pairs, hpairs, h⟩ := bind_eq_ok_iff.1 h
      cases h
      intro e he
      obtain ⟨pair, hpair, hsome⟩ := List.mem_filterMap.1 he
      obtain ⟨item, hitem, htwo⟩ := exists_of_mem_mapM hpairs hpair
      obtain rfl : pair = some e := hsome
      exact isJson_twoMembers (isJson_itemsOf (hmembers.get? hlist) hitems item hitem) htwo

theorem zones_yields (c : Client) (t : Transport σ) :
    (c.zones t).Yields fun zones => ∀ z ∈ zones, z.name.IsJson ∧ z.endpoint.IsJson := by
  refine (c.exchange_yields t _ _ _ _).bind fun members hmembers => ?_
  refine (Action.yields_liftM fun _ => isJson_listMembers hmembers).bind fun found hfound => ?_
  refine Action.yields_liftM fun zones hzones => ?_
  cases hzones
  exact List.forall_mem_map.2 hfound

theorem clusters_yields (c : Client) (t : Transport σ) (endpoint : Datum) :
    (c.clusters t endpoint).Yields fun found => ∀ l ∈ found, l.id.IsJson ∧ l.name.IsJson := by
  refine (c.exchange_yields t _ _ _ _).bind fun members hmembers => ?_
  refine (Action.yields_liftM fun _ => isJson_listMembers hmembers).bind fun found hfound => ?_
  refine Action.yields_liftM fun clusters hclusters => ?_
  cases hclusters
  exact List.forall_mem_map.2 hfound

end Client
end Api
end KubeAtlas
