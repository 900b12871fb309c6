import KubeAtlas.Proofs.Api.Client
import KubeAtlas.Proofs.Coupling
/-!
# What depends on a secret

The secret of a client goes into the signature of each request and nowhere else. A kubeconfig goes
from the answer to the caller, and is blotted out where the answer is recorded. So two runs with
different secrets, over scripts that differ in kubeconfigs at most, send the same requests up to
their signatures and record the same (`provider_coupled`).

A script answers each request by what was asked so far. It does not see who asks: the header with
the signature is taken off first. It also says what time it is whenever the clock is read.
-/

namespace KubeAtlas

namespace Api

namespace Request

def bare (r : Request) : Request :=
  { r with headers := r.headers.filter fun h => h.1 != "Authorization" }

/-- Two requests that differ in the text after the last `signature=` at most. -/
inductive SameButSignature : Request → Request → Prop
  | intro (method url : String) (data : Option String) (before after : List (String × String))
      (front digest other : String) :
      SameButSignature
        ⟨method, url, data, before ++ ("Authorization", front ++ "signature=" ++ digest) :: after⟩
        ⟨method, url, data, before ++ ("Authorization", front ++ "signature=" ++ other) :: after⟩

theorem SameButSignature.bare_eq {r s : Request} (h : r.SameButSignature s) : r.bare = s.bare := by
  cases h
  simp [bare]

theorem bare_eq_of_sent {sent others : List Request}
    (h : List.Forall₂ SameButSignature sent others) : sent.map bare = others.map bare := by
  induction h with
  | nil => rfl
  | cons hr _ ih => rw [List.map_cons, List.map_cons, hr.bare_eq, ih]

end Request

/-- Two lists of members in which only a kubeconfig may differ. -/
def SameButKubeconfig (members others : List (Datum × Datum)) : Prop :=
  List.Forall₂ (fun e d => e.1 = d.1 ∧ (e.1 = .str "kubeconfig" ∨ e.2 = d.2)) members others

theorem SameButKubeconfig.redact_eq {members others : List (Datum × Datum)}
    (h : SameButKubeconfig members others) : Journal.redact members = Journal.redact others := by
  induction h with
  | nil => rfl
  | @cons e d members others hentry _ ih =>
      obtain ⟨name, value⟩ := e
      obtain ⟨hname, hvalue⟩ := hentry
      rw [Journal.redact, List.map_cons, Journal.redact, List.map_cons]
      refine congrArg₂ _ ?_ ih
      rcases hvalue with rfl | rfl
      · simp only [← hname]
        rfl
      · simp only [← hname]

/-- Whether a text is read. JSON with an integer that is too long is not. -/
def IsRead (text : String) : Prop := ∃ d, Json.read text = .ok d

/-- Two answers that are the same or, unless `fixed` holds, two JSON objects that differ in a
kubeconfig. If everything is recorded, either both are read or none. -/
inductive Response.Alike (fixed : Prop) (verbose : Bool) : Response → Response → Prop
  | refl (r : Response) : Alike fixed verbose r r
  | kubeconfig {r s : Response} {members others : List (Datum × Datum)} (hfree : ¬ fixed)
      (hr : r.status < 400) (hs : s.status < 400)
      (hmembers : Json.readWithin none r.body = .ok (.map members))
      (hothers : Json.readWithin none s.body = .ok (.map others))
      (h : SameButKubeconfig members others)
      (hread : verbose = true → (IsRead r.body ↔ IsRead s.body)) : Alike fixed verbose r s

namespace Client

/-- What a client makes of two such answers. -/
inductive ReadAlike (fixed : Prop) (verbose : Bool) :
    Except Failure (List (Datum × Datum)) → Except Failure (List (Datum × Datum)) → Prop
  | refl (r : Except Failure (List (Datum × Datum))) : ReadAlike fixed verbose r r
  | members {members others : List (Datum × Datum)} (hfree : ¬ fixed)
      (h : SameButKubeconfig members others) : ReadAlike fixed verbose (.ok members) (.ok others)
  | failures (hfree : ¬ fixed) (e d : Failure) : ReadAlike fixed verbose (.error e) (.error d)
  | quiet (hfree : ¬ fixed) (hquiet : verbose = false)
      (r s : Except Failure (List (Datum × Datum))) : ReadAlike fixed verbose r s

theorem interpret_of_read {url : String} {r : Response} {members : List (Datum × Datum)}
    (hstatus : r.status < 400) (hread : Json.read r.body = .ok (.map members)) :
    interpret url r = .ok members := by
  rw [interpret, if_neg (by omega), hread]
  split
  · next hempty =>
      -- no JSON text is empty
      rw [String.isEmpty_iff.1 hempty] at hread
      cases hread
  · rfl

theorem exists_interpret_of_not_read (url : String) {r : Response} {e : Json.Error}
    (hstatus : r.status < 400) (hread : Json.read r.body = .error e)
    (hmalformed : e.isMalformed = false) : ∃ f, interpret url r = .error f := by
  refine ⟨outOfRange e, ?_⟩
  rw [interpret, if_neg (by omega), hread]
  split
  · next hempty =>
      -- the empty text is malformed
      rw [String.isEmpty_iff.1 hempty] at hread
      cases hread
      cases hmalformed
  · simp only [hmalformed]
    rfl

end Client

theorem Response.Alike.interpret {fixed : Prop} {verbose : Bool} {r s : Response}
    (h : r.Alike fixed verbose s) (url : String) :
    Client.ReadAlike fixed verbose (Client.interpret url r) (Client.interpret url s) := by
  cases h with
  | refl => exact .refl _
  | kubeconfig hfree hr hs hmembers hothers h hread =>
      by_cases hverbose : verbose = true
      · have hboth := hread hverbose
        rcases Json.read_of_readWithin hmembers with hfirst | ⟨e, hfirst, he⟩ <;>
          rcases Json.read_of_readWithin hothers with hsecond | ⟨d, hsecond, hd⟩
        · rw [Client.interpret_of_read hr hfirst, Client.interpret_of_read hs hsecond]
          exact .members hfree h
        · obtain ⟨found, hfound⟩ := hboth.1 ⟨_, hfirst⟩
          cases hsecond.symm.trans hfound
        · obtain ⟨found, hfound⟩ := hboth.2 ⟨_, hsecond⟩
          cases hfirst.symm.trans hfound
        · obtain ⟨f, hf⟩ := Client.exists_interpret_of_not_read url hr hfirst he
          obtain ⟨g, hg⟩ := Client.exists_interpret_of_not_read url hs hsecond hd
          rw [hf, hg]
          exact .failures hfree f g
      · exact .quiet hfree (Bool.not_eq_true _ ▸ hverbose) _ _

/-! ### Requests with a secret -/

def Client.withSecret (c : Client) (secret : String) : Client := { c with secret := .str secret }

theorem Signed.header_eq (s : Signed) (key : String) (secret : List UInt8) :
    s.header key secret =
      "EXO2-HMAC-SHA256 credential=" ++ key ++ (if s.query.isEmpty then ""
        else ",signed-query-args=" ++ ";".intercalate (s.query.map (·.1))) ++
        ",expires=" ++ toString s.expires ++ "," ++ "signature=" ++
        String.ofList (Text.Base64.encode (Crypto.hmac secret s.message)) := by
  have hname : ∀ front : String, front ++ "," ++ "signature=" = front ++ ",signature=" :=
    fun front => String.append_assoc
  rw [hname]
  rfl

/-- The secret is seen in the signature only. -/
theorem Client.prepare_agree (c : Client) (secret other method url : String)
    (payload : Option (List (Datum × Datum))) :
    Agree (fun r s => r.SameButSignature s ∧ r.method = method)
      ((c.withSecret secret).prepare method url payload)
      ((c.withSecret other).prepare method url payload) := by
  unfold Client.prepare
  refine (Agree.refl _).bind ?_
  rintro text _ rfl
  refine (Agree.refl _).bind ?_
  rintro signed _ rfl
  have hsecrets : Agree (fun _ _ => True) (pure (Text.Utf8.encode secret.toList))
    (pure (Text.Utf8.encode other.toList) : Except Failure (List UInt8)) := .ok trivial
  refine hsecrets.bind ?_
  rintro first second -
  refine (Agree.refl (spelled c.key)).bind ?_
  rintro key _ rfl
  refine .ok ⟨?_, rfl⟩
  rw [Signed.header_eq, Signed.header_eq]
  exact .intro method url _ [("Accept", "application/json")] _ _ _ _

/-! ### Scripts -/

/-- What has gone over the wire, and how often the clock was read. -/
structure Wire where
  readings : Nat
  sent : List Request

/-- What the clock shows, and what each request is answered after those before it, their signatures
taken off. -/
structure Script where
  clock : Nat → Int
  answer : List Request → Request → Except Failure Response

namespace Script

def read (s : Script) : Action Wire Int :=
  ExceptT.mk fun w =>
    (.ok (s.clock w.outside.readings),
      { w with outside := { w.outside with readings := w.outside.readings + 1 } })

def transport (s : Script) : Transport Wire where
  send r := ExceptT.mk fun w =>
    (s.answer (w.outside.sent.map Request.bare) r.bare,
      { w with outside := { w.outside with sent := w.outside.sent ++ [r] } })
  connect _ := pure ()

def provider (s : Script) (c : Client) : Provider Wire where
  zones := do Client.zones { c with now := ← s.read } s.transport
  clusters endpoint := do Client.clusters { c with now := ← s.read } s.transport endpoint
  kubeconfig endpoint id grant := do
    Client.kubeconfig { c with now := ← s.read } s.transport endpoint id grant

/-- Two scripts that are the same or, unless `same` holds, differ in kubeconfigs. -/
structure Alike (same : Prop) (verbose : Bool) (s t : Script) : Prop where
  clock : s.clock = t.clock
  answer : ∀ sent r, Agree (Response.Alike (same ∨ r.method ≠ "POST") verbose) (s.answer sent r)
    (t.answer sent r)

theorem agree_answer (fixed : Prop) (verbose : Bool) (s : Script) (sent : List Request)
    (r : Request) : Agree (Response.Alike fixed verbose) (s.answer sent r) (s.answer sent r) := by
  cases s.answer sent r with
  | ok response => exact .ok (.refl response)
  | error e => exact .error e

theorem Alike.refl (same : Prop) (verbose : Bool) (s : Script) : s.Alike same verbose s :=
  ⟨rfl, fun sent r => s.agree_answer _ verbose sent r⟩

/-- Two scripts that differ only in the kubeconfigs that they give, in JSON objects that are
otherwise the same. -/
structure SameButKubeconfigs (s t : Script) : Prop where
  clock : s.clock = t.clock
  answer : ∀ sent r, s.answer sent r = t.answer sent r ∨
    r.method = "POST" ∧ ∃ response changed members others,
      s.answer sent r = .ok response ∧ response.status < 400 ∧
      Json.readWithin none response.body = .ok (.map members) ∧
      t.answer sent r = .ok changed ∧ changed.status < 400 ∧
      Json.readWithin none changed.body = .ok (.map others) ∧ Api.SameButKubeconfig members others

/-- Two scripts of which one gives a text that is read where the other one does. -/
def SameRead (s t : Script) : Prop :=
  ∀ sent r response changed, s.answer sent r = .ok response → t.answer sent r = .ok changed →
    (IsRead response.body ↔ IsRead changed.body)

theorem SameButKubeconfigs.alike {s t : Script} {verbose : Bool} (h : s.SameButKubeconfigs t)
    (hread : verbose = true → s.SameRead t) : s.Alike False verbose t := by
  refine ⟨h.clock, fun sent r => ?_⟩
  rcases h.answer sent r with hsame | ⟨hpost, response, changed, members, others, hresponse,
    hstatus, hmembers, hchanged, hother, hothers, hsame⟩
  · rw [← hsame]
    exact s.agree_answer _ verbose sent r
  · rw [hresponse, hchanged]
    exact .ok (.kubeconfig (by simp [hpost]) hstatus hother hmembers hothers hsame fun hverbose =>
      hread hverbose sent r response changed hresponse hchanged)

end Script

/-- The same was recorded, and the same requests were sent up to their signatures. -/
structure SameButSignatures (verbose : Bool) (w v : World Wire) : Prop where
  journal : w.journal = v.journal
  verbose : w.journal.verbose = verbose
  readings : w.outside.readings = v.outside.readings
  sent : List.Forall₂ Request.SameButSignature w.outside.sent v.outside.sent

namespace SameButSignatures

variable {verbose : Bool} {w v : World Wire}

theorem record (h : SameButSignatures verbose w v) (e : Entry) :
    SameButSignatures verbose (w.record e) (v.record e) :=
  ⟨congrArg (·.record e) h.journal, (Journal.verbose_record w.journal e).trans h.verbose,
    h.readings, h.sent⟩

theorem journals (h : SameButSignatures verbose w v) {change : Journal → Except Failure Journal}
    (hchange : ∀ {j k}, change j = .ok k → j.Noted k) :
    Agree (fun j k => SameButSignatures verbose { w with journal := j } { v with journal := k })
      (change w.journal) (change v.journal) := by
  rw [← h.journal]
  cases hleft : change w.journal with
  | error e => exact .error e
  | ok j => exact .ok ⟨rfl, (hchange hleft).verbose_eq.trans h.verbose, h.readings, h.sent⟩

end SameButSignatures

/-- A journal that does not take everything takes no answer. -/
theorem Client.perform_told_of_quiet (context : String)
    (r : Except Failure (List (Datum × Datum))) {w : World Wire}
    (h : w.journal.verbose = false) : (Client.told context r).perform w = (r, w) := by
  rw [Client.perform_told]
  cases r with
  | error e => rfl
  | ok members =>
      have hresponse : w.journal.response context members = .ok w.journal := by
        rw [Journal.response, h]
        rfl
      simp only [hresponse]

section Coupled

variable {same : Prop} {verbose : Bool} {s t : Script}

theorem told_coupled {fixed : Prop} (context : String)
    {r q : Except Failure (List (Datum × Datum))} (h : Client.ReadAlike fixed verbose r q) :
    Action.Coupled (SameButSignatures verbose) (fun r q => fixed → r = q)
      (Client.told context r) (Client.told context q) := by
  have hrecorded {members others : List (Datum × Datum)}
      (hredact : Journal.redact members = Journal.redact others) :
      Action.Coupled (SameButSignatures verbose) (Agree Eq)
        (Action.journal fun j => j.response context members)
        (Action.journal fun j => j.response context others) := by
    have hresponse : (fun j : Journal => j.response context others) =
        fun j => j.response context members := by
      funext j
      rw [Journal.response, Journal.response, Journal.recordPayload, Journal.recordPayload,
        Journal.payloadText, Journal.payloadText, hredact]
    rw [hresponse]
    exact Action.coupled_journal fun w v hworlds => hworlds.journals Journal.noted_response
  cases h with
  | refl =>
      refine .bind (Action.coupled_liftM (.refl r)) (fun _ _ => rfl) ?_
      rintro members _ rfl
      exact .bind (hrecorded rfl) (fun _ _ => rfl) fun _ _ _ =>
        Action.coupled_liftM fun _ => rfl
  | members hfree h =>
      refine .bind (Action.coupled_liftM (.ok (S := SameButKubeconfig) h)) (fun _ _ => rfl) ?_
      intro members others h
      exact .bind (hrecorded h.redact_eq) (fun _ _ => rfl) fun _ _ _ =>
        Action.coupled_liftM fun hfixed => (hfree hfixed).elim
  | failures hfree e d => exact Action.coupled_liftM fun hfixed => (hfree hfixed).elim
  | quiet hfree hquiet =>
      intro w v hworlds
      rw [Client.perform_told_of_quiet context r (hworlds.verbose.trans hquiet),
        Client.perform_told_of_quiet context q
          ((congrArg Journal.verbose hworlds.journal).symm.trans
            (hworlds.verbose.trans hquiet))]
      exact ⟨fun hfixed => (hfree hfixed).elim, hworlds⟩

variable (h : s.Alike same verbose t)
include h

theorem read_coupled : Action.Coupled (SameButSignatures verbose) (Agree Eq) s.read t.read := by
  intro w v hworlds
  refine ⟨?_, hworlds.journal, hworlds.verbose, congrArg (· + 1) hworlds.readings, hworlds.sent⟩
  change Agree Eq (.ok (s.clock w.outside.readings)) (.ok (t.clock v.outside.readings))
  rw [h.clock, hworlds.readings]
  exact .refl _

theorem send_coupled {r q : Request} (hr : r.SameButSignature q) :
    Action.Coupled (SameButSignatures verbose)
      (Agree (Response.Alike (same ∨ r.method ≠ "POST") verbose))
      (s.transport.send r) (t.transport.send q) := by
  intro w v hworlds
  have hsent : w.outside.sent.map Request.bare = v.outside.sent.map Request.bare :=
    Request.bare_eq_of_sent hworlds.sent
  refine ⟨?_, hworlds.journal, hworlds.verbose, hworlds.readings,
    List.rel_append hworlds.sent (.cons hr .nil)⟩
  have hanswer := h.answer (w.outside.sent.map Request.bare) r.bare
  change Agree _ (s.answer _ _) (t.answer (v.outside.sent.map Request.bare) q.bare)
  rw [← hsent, ← hr.bare_eq]
  exact hanswer

theorem receive_coupled (url context : String) {r q : Request} (hr : r.SameButSignature q) :
    Action.Coupled (SameButSignatures verbose)
      (fun r' q' => same ∨ r.method ≠ "POST" → r' = q')
      (Client.receive s.transport url context r) (Client.receive t.transport url context q) := by
  refine .bind (.tryCatch (send_coupled h hr) fun e => Action.coupled_liftM (.error _))
    (fun _ _ => rfl) ?_
  intro response other halike
  exact told_coupled context (halike.interpret url)

theorem exchange_coupled (c : Client) (secret other method : String) (endpoint : Datum)
    (path : String) (payload : Option (List (Datum × Datum))) :
    Action.Coupled (SameButSignatures verbose) (fun r q => same ∨ method ≠ "POST" → r = q)
      ((c.withSecret secret).exchange s.transport method endpoint path payload)
      ((c.withSecret other).exchange t.transport method endpoint path payload) := by
  rw [Client.exchange_eq, Client.exchange_eq]
  refine .bind (Action.coupled_liftM (.refl _)) (fun _ _ => rfl) ?_
  rintro base _ rfl
  refine .bind (Action.coupled_liftM (c.prepare_agree secret other method _ payload))
    (fun _ _ => rfl) ?_
  rintro r q ⟨hr, hmethod⟩
  refine .bind (Action.coupled_journal fun w v hworlds =>
    hworlds.journals Journal.noted_request) (fun _ _ => rfl) fun _ _ _ => ?_
  rw [← hmethod]
  change Action.Coupled _ _ (if c.shared then _ else _) (if c.shared then _ else _)
  split
  · exact receive_coupled h _ _ hr
  · exact .bind (Action.coupled_liftM (.refl (.ok ()))) (fun _ _ => rfl) fun _ _ _ =>
      receive_coupled h _ _ hr

theorem list_coupled {α : Type} (c : Client) (secret other : String) (endpoint : Datum)
    (path : String) (list : List (Datum × Datum) → Except Failure (List (Datum × Datum)))
    (f : Datum × Datum → α) :
    Action.Coupled (SameButSignatures verbose) Eq
      (do
        let members ← (c.withSecret secret).exchange s.transport "GET" endpoint path none
        pure ((← list members).map f))
      (do
        let members ← (c.withSecret other).exchange t.transport "GET" endpoint path none
        pure ((← list members).map f)) := by
  have hcoupled := (exchange_coupled h c secret other "GET" endpoint path none).bind_liftM
    fun members => (list members).map (List.map f)
  simp only [Action.liftM_map] at hcoupled
  exact hcoupled.imp fun r q hresults => hresults (.inr (by decide))

/-- Over alike scripts, two clients that differ in their secrets are coupled providers. -/
theorem provider_coupled (c : Client) (secret other : String) :
    Provider.Coupled (SameButSignatures verbose) same (s.provider (c.withSecret secret))
      (t.provider (c.withSecret other)) := by
  constructor
  · refine .bind (read_coupled h) (fun _ => rfl) ?_
    rintro now _ rfl
    exact list_coupled h { c with now } secret other _ _ _ _
  · intro endpoint
    refine .bind (read_coupled h) (fun _ => rfl) ?_
    rintro now _ rfl
    exact list_coupled h { c with now } secret other _ _ _ _
  · intro endpoint id grant
    refine .bind (read_coupled h) (fun _ _ => rfl) ?_
    rintro now _ rfl
    rw [Client.kubeconfig_eq, Client.kubeconfig_eq]
    exact ((exchange_coupled h { c with now } secret other "POST" _ _ _).bind_liftM _).imp
      fun r q hresults hsame => hresults (.inl hsame)

end Coupled

end Api
end KubeAtlas
