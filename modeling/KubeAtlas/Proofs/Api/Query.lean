import KubeAtlas.Proofs.Api.Secret
/-!
# What a call does

A call of the client makes one request and reads one answer. Every call is a query in that sense,
and there are three of them (`IsCall`). Whether a request can be signed is known from its address,
the secret and the key (`Unsignable`). One that cannot be signed ends the call before anything was
done (`Query.perform_of_unsignable`). One that can is recorded and goes out, and the rest is decided
by what the transport has for it (`Query.perform_of_prepared`).
-/

namespace KubeAtlas

namespace Api

variable {σ α : Type}

def Transport.Opens (t : Transport σ) : Prop :=
  ∀ timeout w, ((t.connect timeout).perform w).1 = .ok ()

structure Client.IsTextual (c : Client) : Prop where
  key : ∃ key, c.key = .str key
  secret : ∃ secret, c.secret = .str secret

/-! ### Preparing a request -/

section Prepare

variable {c : Client} {method url : String} {payload : Option (List (Datum × Datum))}

def payloadText : Option (List (Datum × Datum)) → Except Failure String
  | some members => Client.payloadJson members
  | none => pure ""

def IsWritten (payload : Option (List (Datum × Datum))) : Prop :=
  ∃ text, payloadText payload = .ok text

/-- Whether there is a request is decided by the address, by the secret, and by the key, in this
order. -/
theorem exists_prepare_eq (c : Client) (method url : String) (hpayload : IsWritten payload) :
    ∃ request : Url.Address → List UInt8 → String → Request,
      (∀ a secret key, (request a secret key).method = method ∧
        (request a secret key).url = url) ∧
      c.prepare method url payload = match Url.Address.read url, c.secret with
        | .error e, _ => .error (.address e)
        | .ok a, .scalar (.str s) => Client.spelled c.key >>= fun key =>
            .ok (request a (Text.Utf8.encode s.toList) key)
        | .ok _, d => .error (.wrongKind (.lacks d.kind "encode")) := by
  obtain ⟨text, htext⟩ := hpayload
  let signed : Url.Address → Signed := fun a =>
    ⟨method, a.path, Text.Utf8.encode text.toList, signedQuery a.query, c.now + validity⟩
  let content := if payload.isSome then [("Content-Type", "application/json")] else []
  refine ⟨fun a secret key => ⟨method, url, if text.isEmpty then none else some text,
    [("Accept", "application/json"), ("Authorization", (signed a).header key secret)] ++ content⟩,
    fun a secret key => ⟨rfl, rfl⟩, ?_⟩
  have hsigned : Signed.ofUrl method url (Text.Utf8.encode text.toList) (c.now + validity) =
      (Url.Address.read url).map signed := by
    rw [Signed.ofUrl]
    cases Url.Address.read url <;> rfl
  unfold Client.prepare
  change payloadText payload >>= _ = _
  rw [htext]
  simp only [bind, Except.bind, hsigned]
  cases Url.Address.read url with
  | error e => rfl
  | ok a =>
      cases hsecret : c.secret with
      | scalar s => cases s <;> rfl
      | _ => rfl

/-- Why a request cannot be signed: for its address, its secret, or its key, in this order. -/
inductive Unsignable (c : Client) (url : String) : Failure → Prop
  | address {e : Url.Error} (h : Url.Address.read url = .error e) : Unsignable c url (.address e)
  | secret {a : Url.Address} (h : Url.Address.read url = .ok a) (hsecret : ∀ s, c.secret ≠ .str s) :
      Unsignable c url (.wrongKind (.lacks c.secret.kind "encode"))
  | key {a : Url.Address} {s : String} (h : Url.Address.read url = .ok a)
      (hsecret : c.secret = .str s) (hkey : c.key.isShowable = false) :
      Unsignable c url .tooLong

theorem Unsignable.prepare {f : Failure} (h : Unsignable c url f) (hpayload : IsWritten payload) :
    c.prepare method url payload = .error f := by
  obtain ⟨request, -, hprepare⟩ := exists_prepare_eq c method url hpayload
  rw [hprepare]
  cases h with
  | address h => rw [h]
  | secret h hsecret =>
      rw [h]
      split
      · next h => cases h
      · next s h hs => exact absurd hs (hsecret s)
      · rfl
  | key h hsecret hkey =>
      rw [h, hsecret, Client.spelled, hkey]
      rfl

theorem exists_prepare (method : String) (h : ∀ f, ¬ Unsignable c url f)
    (hpayload : IsWritten payload) :
    ∃ request, c.prepare method url payload = .ok request ∧ request.method = method ∧
      request.url = url := by
  obtain ⟨request, hrequest, hprepare⟩ := exists_prepare_eq c method url hpayload
  cases hread : Url.Address.read url with
  | error e => exact absurd (.address hread) (h _)
  | ok a =>
      have htext : ∃ s, c.secret = .str s := by
        by_contra hnone
        exact h _ (.secret hread fun s hs => hnone ⟨s, hs⟩)
      obtain ⟨s, hsecret⟩ := htext
      have hkey : c.key.isShowable = true := by
        by_contra hlong
        exact h _ (.key hread hsecret (Bool.not_eq_true _ ▸ hlong))
      refine ⟨request a (Text.Utf8.encode s.toList) c.key.text, ?_, hrequest _ _ _⟩
      rw [hprepare, hread, hsecret, Client.spelled, if_pos hkey]
      rfl

theorem Client.IsTextual.unsignable_iff (hc : c.IsTextual) {f : Failure} :
    Unsignable c url f ↔ ∃ e, Url.Address.read url = .error e ∧ f = .address e := by
  obtain ⟨⟨key, hkey⟩, secret, hsecret⟩ := hc
  constructor
  · intro h
    cases h with
    | address h => exact ⟨_, h, rfl⟩
    | secret h hnone => exact absurd hsecret (hnone secret)
    | key h htext hlong =>
        rw [hkey] at hlong
        cases hlong
  · rintro ⟨e, h, rfl⟩
    exact .address h

end Prepare

structure Query (α : Type) where
  method : String
  endpoint : String
  path : String
  payload : Option (List (Datum × Datum))
  /-- The name of the list that the answer is to have. -/
  list : Option String
  read : List (Datum × Datum) → Except Failure α

namespace Query

open Client (listMembers)

def url (q : Query α) : String := stripSlashes q.endpoint ++ q.path

def context (q : Query α) : String := s!"{q.method} {q.url}"

def run (q : Query α) (c : Client) (t : Transport σ) : Action σ α := do
  let members ← c.exchange t q.method (.str q.endpoint) q.path q.payload
  q.read members

def zones (c : Client) : Query (List Zone) where
  method := "GET"
  endpoint := c.url
  path := "/zone"
  payload := none
  list := some "zones"
  read members := (listMembers members "zones" "name" "api-endpoint").map
    (List.map fun e => ⟨e.1, e.2⟩)

def clusters (endpoint : String) : Query (List Listing) where
  method := "GET"
  endpoint
  path := "/sks-cluster"
  payload := none
  list := some "sks-clusters"
  read members := (listMembers members "sks-clusters" "id" "name").map
    (List.map fun e => ⟨e.1, e.2⟩)

def grantMembers (g : Grant) : List (Datum × Datum) :=
  [(.str "groups", .list g.groups), (.str "user", g.user), (.str "ttl", g.ttl)]

def kubeconfig (endpoint id : String) (g : Grant) : Query Datum where
  method := "POST"
  endpoint
  path := "/sks-cluster-kubeconfig/" ++ id
  payload := some (grantMembers g)
  list := none
  read members :=
    match ((Datum.map members).get? "kubeconfig").filter Datum.isTruthy with
    | some d => pure d
    | none => throw (.api (.noKubeconfig id))

/-- The queries that the calls of a client are. A grant is asked for that can be written. -/
inductive IsCall (c : Client) (t : Transport σ) : {α : Type} → Query α → Action σ α → Prop
  | zones : IsCall c t (zones c) (c.zones t)
  | clusters (endpoint : String) : IsCall c t (clusters endpoint) (c.clusters t (.str endpoint))
  | kubeconfig (endpoint id : String) {g : Grant} {text : String}
      (hg : Client.payloadJson (grantMembers g) = .ok text) :
      IsCall c t (kubeconfig endpoint id g) (c.kubeconfig t (.str endpoint) (.str id) g)

variable {c : Client} {t : Transport σ} {q : Query α} {a : Action σ α} {w : World σ}

theorem IsCall.eq_run (h : IsCall c t q a) : a = q.run c t := by
  cases h with
  | zones =>
      refine congrArg (c.exchange t "GET" (.str c.url) "/zone" none >>= ·)
        (funext fun members => ?_)
      exact (Action.liftM_map (listMembers members "zones" "name" "api-endpoint") _).symm
  | clusters endpoint =>
      refine congrArg (c.exchange t "GET" (.str endpoint) "/sks-cluster" none >>= ·)
        (funext fun members => ?_)
      exact (Action.liftM_map (listMembers members "sks-clusters" "id" "name") _).symm
  | @kubeconfig endpoint id g text hg =>
      exact Client.kubeconfig_eq c t (.str endpoint) (.str id) g

theorem IsCall.isWritten (h : IsCall c t q a) : IsWritten q.payload := by
  cases h with
  | zones => exact ⟨"", rfl⟩
  | clusters endpoint => exact ⟨"", rfl⟩
  | kubeconfig endpoint id hg => exact ⟨_, hg⟩

theorem exists_write_payload {payload : Option (List (Datum × Datum))} (h : IsWritten payload) :
    ∃ text, Json.write .wide (.map (payload.getD [])) = .ok text := by
  cases payload with
  | none => exact ⟨_, rfl⟩
  | some members =>
      obtain ⟨text, htext⟩ := h
      change (Json.write .wide (.map members)).mapError _ = .ok text at htext
      change ∃ text, Json.write .wide (.map members) = .ok text
      cases hwrite : Json.write .wide (.map members) with
      | ok found => exact ⟨found, rfl⟩
      | error o =>
          rw [hwrite] at htext
          cases htext

/-! ### The request -/

def recorded (q : Query α) : Action σ Unit :=
  Action.journal fun j => j.request q.context (q.payload.getD [])

/-- The world that a request goes out into: it was recorded, and there is a connection. -/
def sendingWorld (q : Query α) (c : Client) (t : Transport σ) (w : World σ) : World σ :=
  let v := ((q.recorded : Action σ Unit).perform w).2
  if c.shared then v else ((t.connect c.timeout).perform v).2

/-- The request goes out, and this is what the transport has for it. -/
def Meets (q : Query α) (c : Client) (t : Transport σ) (w : World σ)
    (outcome : Except Failure Response) : Prop :=
  ∃ request, c.prepare q.method q.url q.payload = .ok request ∧
    ((t.send request).perform (q.sendingWorld c t w)).1 = outcome

/-- What the client makes of the outcome of a request. -/
def settle (q : Query α) (outcome : Except Failure Response) : Except Failure α :=
  match outcome with
  | .ok r => Client.interpret q.url r >>= q.read
  | .error e => .error (Client.unanswered q.context e)

theorem perform_receive (q : Query α) (t : Transport σ) (request : Request) (v : World σ) :
    let ran := (do q.read (← Client.receive t q.url q.context request) : Action σ α).perform v
    ran.1 = q.settle ((t.send request).perform v).1 ∧
      ran.2.outside = ((t.send request).perform v).2.outside := by
  rw [Action.perform_bind, Client.perform_receive]
  rcases (t.send request).perform v with ⟨e | r, u⟩
  · exact ⟨rfl, rfl⟩
  · simp only [settle, Client.perform_told]
    cases hmembers : Client.interpret q.url r with
    | error e => exact ⟨rfl, rfl⟩
    | ok members =>
        -- what is read from an answer can be recorded
        obtain ⟨j, hj⟩ := Journal.exists_response
          (Json.exists_write_of_isJson (Client.isJson_interpret hmembers) .compact) u.journal
          q.context
        simp only [hj]
        exact ⟨rfl, rfl⟩

def attempt (q : Query α) (c : Client) (t : Transport σ) (request : Request) : Action σ α := do
  q.recorded
  if !c.shared then t.connect c.timeout
  q.read (← Client.receive t q.url q.context request)

theorem run_eq (q : Query α) (c : Client) (t : Transport σ) :
    q.run c t = (liftM (c.prepare q.method q.url q.payload) : Action σ Request) >>=
      q.attempt c t := by
  rw [run, Client.exchange_eq]
  have hbase : endpointUrl (.str q.endpoint) = .ok (stripSlashes q.endpoint) := rfl
  rw [hbase]
  change ((liftM (c.prepare q.method q.url q.payload) >>= _ : Action σ _) >>= _) = _
  rw [bind_assoc]
  refine bind_congr fun request => ?_
  rw [attempt]
  cases c.shared with
  | true => exact bind_assoc (_ : Action σ Unit) _ _
  | false =>
      simp only [Bool.not_false, if_true, Bool.false_eq_true, if_false, bind_assoc]
      rfl

theorem perform_recorded (hpayload : IsWritten q.payload) (w : World σ) :
    (q.recorded.perform w).1 = .ok () := by
  obtain ⟨j, hj⟩ := Journal.exists_request (exists_write_payload hpayload) w.journal q.context
  rw [recorded, Action.perform_journal, hj]

theorem perform_attempt (hpayload : IsWritten q.payload) (hopens : t.Opens) (request : Request)
    (w : World σ) :
    (q.attempt c t request).perform w =
      (do q.read (← Client.receive t q.url q.context request) : Action σ α).perform
        (q.sendingWorld c t w) := by
  have hrecorded := perform_recorded hpayload w
  rw [attempt, Action.perform_bind, sendingWorld]
  generalize q.recorded.perform w = first at hrecorded ⊢
  rcases first with ⟨e | _, v⟩
  · cases hrecorded
  cases c.shared with
  | true => rfl
  | false =>
      have hopened := hopens c.timeout v
      simp only [Bool.not_false, if_true, Bool.false_eq_true, if_false]
      rw [Action.perform_bind]
      generalize (t.connect c.timeout).perform v = second at hopened ⊢
      rcases second with ⟨e | _, u⟩
      · cases hopened
      · rfl

theorem Meets.unique {first second : Except Failure Response} (h : q.Meets c t w first)
    (h' : q.Meets c t w second) : first = second := by
  obtain ⟨request, hprepare, rfl⟩ := h
  obtain ⟨other, hother, rfl⟩ := h'
  cases hprepare.symm.trans hother
  rfl

/-- A request that cannot be signed ends the call, and nothing was done. -/
theorem perform_of_unsignable (ha : IsCall c t q a) {f : Failure} (h : Unsignable c q.url f)
    (w : World σ) : a.perform w = (.error f, w) := by
  rw [ha.eq_run, run_eq, Action.perform_bind, Action.perform_liftM, h.prepare ha.isWritten]

/-- A request that was made goes out, and its outcome is that of the call. -/
theorem perform_of_prepared (ha : IsCall c t q a) (hopens : t.Opens) {request : Request}
    (h : c.prepare q.method q.url q.payload = .ok request) (w : World σ) :
    (a.perform w).1 = q.settle ((t.send request).perform (q.sendingWorld c t w)).1 ∧
      (a.perform w).2.outside =
        ((t.send request).perform (q.sendingWorld c t w)).2.outside := by
  rw [ha.eq_run, run_eq, Action.perform_bind, Action.perform_liftM, h]
  have hattempt := perform_attempt (c := c) ha.isWritten hopens request w
  change ((q.attempt c t request).perform w).1 = _ ∧
    ((q.attempt c t request).perform w).2.outside = _
  rw [hattempt]
  exact perform_receive q t request _

theorem perform_of_meets (ha : IsCall c t q a) (hopens : t.Opens)
    {outcome : Except Failure Response} (h : q.Meets c t w outcome) :
    (a.perform w).1 = q.settle outcome := by
  obtain ⟨request, hprepare, rfl⟩ := h
  exact (perform_of_prepared ha hopens hprepare w).1

end Query

/-! ### Over a script -/

def Script.always (outcome : Except Failure Response) : Script := ⟨fun _ => 0, fun _ _ => outcome⟩

def blank : World Wire := ⟨⟨0, []⟩, .quiet⟩

theorem Script.opens_transport (s : Script) : s.transport.Opens := fun _ _ => rfl

namespace Query

variable {c : Client} {q : Query α} {s : Script} {a : Action Wire α}

theorem outside_sendingWorld (w : World Wire) :
    (q.sendingWorld c s.transport w).outside = w.outside := by
  have hrecorded : ((q.recorded : Action Wire Unit).perform w).2.outside = w.outside := by
    rw [recorded, Action.perform_journal]
    split <;> rfl
  rw [sendingWorld]
  cases c.shared <;> exact hrecorded

theorem sent_of_prepared (ha : IsCall c s.transport q a) {request : Request}
    (h : c.prepare q.method q.url q.payload = .ok request) (w : World Wire) :
    (a.perform w).2.outside.sent = w.outside.sent ++ [request] := by
  have hsent : ∀ v, ((s.transport.send request).perform v).2.outside.sent =
      v.outside.sent ++ [request] := fun _ => rfl
  rw [(perform_of_prepared ha s.opens_transport h w).2, hsent, outside_sendingWorld]

end Query
end Api
end KubeAtlas
