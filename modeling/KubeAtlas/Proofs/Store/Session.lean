import KubeAtlas.Proofs.Api.Query
import KubeAtlas.Proofs.Store.Coupling
/-!
# What the journal tells

A session is a list of calls, to a client or to a store over it: for zones, for clusters, for
kubeconfigs, and searches that are moved on in any order, run to their end or closed. A script
answers the requests. Two sessions that differ in the secret of the client go alike, but for the
signatures of the requests; and if the script differs in kubeconfigs, nothing of them is recorded
(`journal_hides_secrets`).
-/

namespace KubeAtlas

namespace Store

open Api (Client Request Response Script Wire SameButSignatures endpointUrl)
open Api.Query (grantMembers)
open Cluster (Index)

inductive Command where
  | zones
  | clusters (endpoint : Datum)
  | credential (endpoint id : Datum) (grant : Grant)
  | opens
  | advances (i : Nat)
  | closes (i : Nat)
  | passes
  | serves (path : String)

inductive Reply where
  | zones (r : Except Failure (List Zone))
  | clusters (r : Except Failure (List Listing))
  | credential (r : Except Failure Datum)
  | advanced (r : Except Failure (Option SearchResult))
  | passed (results : List SearchResult) (failure : Option Failure)
  | served (r : Except Failure String)

def Reply.text? : Reply → Option String
  | .credential (.ok d) => d.str?
  | _ => none

/-- What the calls so far have come to. -/
structure Session where
  index : Index
  searches : List Search
  replies : List Reply
  world : World Wire

namespace Session

def start (ix : Index) (searches : List Search) (j : Journal) : Session :=
  ⟨ix, searches, [], ⟨⟨0, []⟩, j⟩⟩

def ask {α : Type} (s : Session) (a : Action Wire α) (reply : Except Failure α → Reply) :
    Session :=
  { s with
    replies := s.replies ++ [reply (a.perform s.world).1]
    world := (a.perform s.world).2 }

theorem world_ask {α : Type} (s : Session) (a : Action Wire α) (reply : Except Failure α → Reply) :
    (s.ask a reply).world = (a.perform s.world).2 := rfl

def advance (s : Session) (i : Nat) (st : Step Wire) : Session :=
  ⟨st.index, s.searches.set i st.search, s.replies ++ [.advanced st.result], st.world⟩

def next (p : Provider Wire) (write : Writer) (s : Session) : Command → Session
  | .zones => s.ask p.zones .zones
  | .clusters endpoint => s.ask (p.clusters endpoint) .clusters
  | .credential endpoint id grant => s.ask (p.kubeconfig endpoint id grant) .credential
  | .opens => { s with searches := s.searches ++ [.unstarted] }
  | .advances i => match s.searches[i]? with
    | some t => s.advance i (Search.next p t s.index s.world)
    | none => s
  | .closes i => { s with searches := s.searches.set i .ended }
  | .passes =>
    let pass := discover p s.index s.world
    ⟨pass.index, s.searches, s.replies ++ [.passed pass.results pass.failure], pass.world⟩
  | .serves path => s.ask (kubeconfig p write s.index path) .served

def run (p : Provider Wire) (write : Writer) (s : Session) (commands : List Command) : Session :=
  commands.foldl (next p write) s

/-- Two sessions that have gone alike. The replies are the same if kubeconfigs are. -/
structure Alike (same : Prop) (verbose : Bool) (s t : Session) : Prop where
  index : s.index = t.index
  searches : s.searches = t.searches
  replies : same → s.replies = t.replies
  world : SameButSignatures verbose s.world t.world

variable {same : Prop} {verbose : Bool} {p q : Provider Wire} {s t : Session}

theorem Alike.ask {α : Type} {a b : Action Wire α} (h : s.Alike same verbose t)
    (hcoupled : Action.Coupled (SameButSignatures verbose) (fun r r' => same → r = r') a b)
    (reply : Except Failure α → Reply) :
    (s.ask a reply).Alike same verbose (t.ask b reply) := by
  obtain ⟨hresult, hworld⟩ := hcoupled s.world t.world h.world
  refine ⟨h.index, h.searches, fun hsame => ?_, hworld⟩
  rw [Session.ask, h.replies hsame, hresult hsame]
  rfl

theorem Alike.advance {st su : Step Wire} (h : s.Alike same verbose t)
    (hstep : st.Alike (SameButSignatures verbose) su) (i : Nat) :
    (s.advance i st).Alike same verbose (t.advance i su) := by
  refine ⟨hstep.index, ?_, fun hsame => ?_, hstep.world⟩
  · rw [Session.advance, Session.advance, h.searches, hstep.search]
  · rw [Session.advance, Session.advance, h.replies hsame, hstep.result]

theorem Alike.next (h : s.Alike same verbose t)
    (hp : p.Coupled (SameButSignatures verbose) same q) (write : Writer) (c : Command) :
    (s.next p write c).Alike same verbose (t.next q write c) := by
  cases c with
  | zones => exact h.ask (hp.zones.imp fun _ _ hr _ => hr) _
  | clusters endpoint => exact h.ask ((hp.clusters endpoint).imp fun _ _ hr _ => hr) _
  | credential endpoint id grant => exact h.ask (hp.kubeconfig endpoint id grant) _
  | opens =>
      refine ⟨h.index, ?_, h.replies, h.world⟩
      rw [Session.next, Session.next, h.searches]
  | closes i =>
      refine ⟨h.index, ?_, h.replies, h.world⟩
      rw [Session.next, Session.next, h.searches]
  | serves path =>
      rw [Session.next, Session.next, ← h.index]
      exact h.ask (kubeconfig_coupled hp write s.index path) _
  | advances i =>
      rw [Session.next, Session.next, ← h.searches, ← h.index]
      cases s.searches[i]? with
      | none => exact h
      | some u =>
          have hstep := next_alike (fun _ _ e hworlds => hworlds.record e) hp u s.index h.world
          exact h.advance hstep i
  | passes =>
      rw [Session.next, Session.next, ← h.index]
      have hpass := discover_alike (fun _ _ e hworlds => hworlds.record e) hp s.index
        h.world
      refine ⟨hpass.index, h.searches, fun hsame => ?_, hpass.world⟩
      rw [h.replies hsame, hpass.results, hpass.failure]

theorem Alike.run (h : s.Alike same verbose t)
    (hp : p.Coupled (SameButSignatures verbose) same q) (write : Writer)
    (commands : List Command) :
    (s.run p write commands).Alike same verbose (t.run q write commands) := by
  induction commands generalizing s t with
  | nil => exact h
  | cons c commands ih => exact ih (h.next hp write c)

theorem alike_start (same : Prop) (ix : Index) (searches : List Search) (j : Journal) :
    (start ix searches j).Alike same j.verbose (start ix searches j) :=
  ⟨rfl, rfl, fun _ => rfl, rfl, rfl, rfl, .nil⟩

end Session

/-- **The journal tells no secrets.** In every session over every script, whatever was recorded
before and whether or not everything is recorded, a client with another secret gets the same
results and failures, records the same, leaves the same index and sends the same requests up to
their signatures. And over a script that gives other kubeconfigs in JSON objects that are otherwise
the same, the same is recorded, but that a verbose journal tells whether an answer was read. -/
theorem journal_hides_secrets (c : Client) (write : Writer) (ix : Index) (searches : List Search)
    (j : Journal) (commands : List Command) (script : Script) :
    let run (secret : String) (script : Script) :=
      (Session.start ix searches j).run (script.provider (c.withSecret secret)) write commands
    (∀ secret other,
      (run secret script).replies = (run other script).replies ∧
      (run secret script).world.journal = (run other script).world.journal ∧
      (run secret script).index = (run other script).index ∧
      List.Forall₂ Request.SameButSignature (run secret script).world.outside.sent
        (run other script).world.outside.sent) ∧
    ∀ secret (another : Script), script.SameButKubeconfigs another →
      (j.verbose = true → script.SameRead another) →
      (run secret another).world.journal = (run secret script).world.journal := by
  intro run
  constructor
  · intro secret other
    have halike := (Session.alike_start True ix searches j).run
      (Api.provider_coupled (Script.Alike.refl True j.verbose script) c secret other) write commands
    exact ⟨halike.replies trivial, halike.world.journal, halike.index, halike.world.sent⟩
  · intro secret another hsame hread
    exact ((Session.alike_start False ix searches j).run
      (Api.provider_coupled (hsame.alike hread) c secret secret) write
      commands).world.journal.symm

def issued (kubeconfig : String) : String :=
  "\x7b\"kubeconfig\": " ++ kubeconfig ++ ", \"id\": \"1\"\x7d"

/-- A script in which only kubeconfigs are answered. -/
def issuing (kubeconfig : String) : Script where
  clock n := n
  answer _ r :=
    if r.method = "POST" then .ok ⟨200, issued kubeconfig⟩
    else .error (.outside (.connection "refused"))

def applicant : Client := ⟨.str "key", .str "", "https://z", .int 30, true, 0⟩

def issuance (kubeconfig : String) : Session :=
  (Session.start .empty [] ⟨true, []⟩).run
    ((issuing kubeconfig).provider (applicant.withSecret "secret"))
    (fun _ => .ok "") [.credential (.str "https://z") (.str "1") fullGrant]

def issuedMembers (d : Datum) : List (Datum × Datum) :=
  [(.str "kubeconfig", d), (.str "id", .str "1")]

theorem answer_issuing {kubeconfig : String} {sent : List Request} {r : Request}
    {response : Response} (h : (issuing kubeconfig).answer sent r = .ok response) :
    response = ⟨200, issued kubeconfig⟩ := by
  change (if r.method = "POST" then _ else _) = _ at h
  split at h
  · exact (Except.ok.inj h).symm
  · cases h

theorem sameButKubeconfigs_issuing {first second : String} {d e : Datum}
    (hfirst : Json.readWithin none (issued first) = .ok (.map (issuedMembers d)))
    (hsecond : Json.readWithin none (issued second) = .ok (.map (issuedMembers e))) :
    (issuing first).SameButKubeconfigs (issuing second) := by
  refine ⟨rfl, fun sent r => ?_⟩
  by_cases hpost : r.method = "POST"
  · have hanswer (kubeconfig : String) : (issuing kubeconfig).answer sent r =
        .ok ⟨200, issued kubeconfig⟩ := if_pos hpost
    have hstatus : (200 : Int) < 400 := by decide
    refine .inr ⟨hpost, _, _, _, _, hanswer first, hstatus, hfirst, hanswer second, hstatus,
      hsecond, ?_⟩
    exact .cons ⟨rfl, .inl rfl⟩ (.cons ⟨rfl, .inr rfl⟩ .nil)
  · exact .inl ((if_neg hpost).trans (if_neg hpost).symm)

/-- A client gets one kubeconfig or the other, and the same is recorded. -/
theorem journal_hides_secrets_issued :
    (issuance "\"a\"").replies.map Reply.text? = [some "a"] ∧
      (issuance "\"b\"").replies.map Reply.text? = [some "b"] ∧
      (issuance "\"b\"").world.journal = (issuance "\"a\"").world.journal := by
  refine ⟨by decide +kernel, by decide +kernel, ?_⟩
  have hsame : (issuing "\"a\"").SameButKubeconfigs (issuing "\"b\"") :=
    sameButKubeconfigs_issuing (d := .str "a") (e := .str "b")
      (eq_ok_of_toOption (by decide +kernel)) (eq_ok_of_toOption (by decide +kernel))
  have hfirst : Json.read (issued "\"a\"") = .ok (.map (issuedMembers (.str "a"))) :=
    eq_ok_of_toOption (by decide +kernel)
  have hsecond : Json.read (issued "\"b\"") = .ok (.map (issuedMembers (.str "b"))) :=
    eq_ok_of_toOption (by decide +kernel)
  refine (journal_hides_secrets applicant _ _ _ _ _ (issuing "\"a\"")).2 "secret"
    (issuing "\"b\"") hsame fun _ sent r response changed hresponse hchanged => ?_
  rw [answer_issuing hresponse, answer_issuing hchanged]
  exact iff_of_true ⟨_, hfirst⟩ ⟨_, hsecond⟩

/-- An answer that is not read leaves nothing in the journal but its request. -/
theorem journal_of_not_read (script : Script) (c : Client) (endpoint id : Datum) (g : Grant)
    (w : World Wire) {base url : String} {request : Request} {response : Response} {j : Journal}
    {f : Failure} (hbase : endpointUrl endpoint = .ok base)
    (hurl : url = base ++ ("/sks-cluster-kubeconfig/" ++ id.text)) (hshared : c.shared = true)
    (hprepare : { c with now := script.clock w.outside.readings }.prepare "POST" url
      (some (grantMembers g)) = .ok request)
    (hrequest : w.journal.request ("POST" ++ " " ++ url) (grantMembers g) = .ok j)
    (hanswer : ∀ sent, script.answer sent request.bare = .ok response)
    (hread : Client.interpret url response = .error f) :
    (((script.provider c).kubeconfig endpoint id g).perform w).2.journal = j := by
  subst hurl
  let v : World Wire :=
    { w with outside := { w.outside with readings := w.outside.readings + 1 } }
  have hclock : script.read.perform w = (.ok (script.clock w.outside.readings), v) := rfl
  have hsend (u : World Wire) : (script.transport.send request).perform u =
      (.ok response,
        { u with outside := { u.outside with sent := u.outside.sent ++ [request] } }) := by
    rw [← hanswer]
    rfl
  have hexchange := Client.perform_exchange (t := script.transport) (w := v) hbase hprepare hrequest
    hshared
  rw [Client.perform_receive, hsend, grantMembers] at hexchange
  simp only [Client.perform_told, hread] at hexchange
  simp only [Script.provider, Action.perform_bind, hclock, Client.kubeconfig_eq, hexchange]

theorem length_entries_issuance {kubeconfig : String} {f : Failure}
    (hread : Client.interpret "https://z/sks-cluster-kubeconfig/1" ⟨200, issued kubeconfig⟩ =
      .error f) : (issuance kubeconfig).world.journal.entries.length = 1 := by
  have hmade : ((applicant.withSecret "secret").prepare "POST" "https://z/sks-cluster-kubeconfig/1"
      (some (grantMembers fullGrant))).toOption.map Request.method = some "POST" := by
    decide +kernel
  have hrecorded : (Journal.request ⟨true, []⟩
      ("POST" ++ " " ++ "https://z/sks-cluster-kubeconfig/1")
      (grantMembers fullGrant)).toOption.map (fun j => j.entries.length) = some 1 := by
    decide +kernel
  obtain ⟨request, hprepare, hpost⟩ := exists_of_toOption_map hmade
  obtain ⟨j, hrequest, hlength⟩ := exists_of_toOption_map hrecorded
  have hbase : endpointUrl (.str "https://z") = .ok "https://z" := rfl
  have hjournal := journal_of_not_read (issuing kubeconfig) (applicant.withSecret "secret")
    (.str "https://z") (.str "1") fullGrant (Session.start .empty [] ⟨true, []⟩).world hbase
    (by decide) rfl hprepare hrequest (fun sent => if_pos hpost) hread
  rw [issuance, Session.run, List.foldl_cons, List.foldl_nil, Session.next, Session.world_ask,
    hjournal, hlength]

def longDigits : List Char := List.replicate (Number.maxDigits + 1) '1'

theorem toList_issued (kubeconfig : List Char) : (issued (String.ofList kubeconfig)).toList =
    "\x7b\"kubeconfig\": ".toList ++ kubeconfig ++ ", \"id\": \"1\"\x7d".toList := by
  have hkubeconfig : (String.ofList kubeconfig).toList = kubeconfig := String.toList_ofList
  delta issued
  rw [String.toList_append, String.toList_append, hkubeconfig]

theorem readWithin_issued_longDigits : Json.readWithin none (issued (String.ofList longDigits)) =
    .ok (.map (issuedMembers (.int ((Text.powerOfTen (Number.maxDigits + 1) - 1) / 9)))) := by
  rw [Json.readWithin_eq_ok_iff, toList_issued]
  exact eq_ok_of_toOption (by decide +kernel)

theorem not_isRead_issued_longDigits : ¬ Api.IsRead (issued (String.ofList longDigits)) := by
  rintro ⟨d, h⟩
  rw [Json.read, Json.readWithin_eq_ok_iff, toList_issued] at h
  have hnone : (Json.document (some Number.maxDigits)
      ("\x7b\"kubeconfig\": ".toList ++ longDigits ++ ", \"id\": \"1\"\x7d".toList)).toOption =
      none := by decide +kernel
  rw [h] at hnone
  cases hnone

/-- A text and an integer that is too long differ as kubeconfigs only, and the journal tells one
from the other: the answer with the integer is not recorded. -/
theorem journal_tells_unread :
    (issuing "\"a\"").SameButKubeconfigs (issuing (String.ofList longDigits)) ∧
      (issuance (String.ofList longDigits)).world.journal ≠ (issuance "\"a\"").world.journal := by
  refine ⟨sameButKubeconfigs_issuing (d := .str "a") (eq_ok_of_toOption (by decide +kernel))
    readWithin_issued_longDigits, fun heq => ?_⟩
  have htext : (issuance "\"a\"").world.journal.entries.length = 2 := by decide +kernel
  obtain ⟨e, herror, hmalformed⟩ :=
    (Json.read_of_readWithin readWithin_issued_longDigits).resolve_left fun h =>
      not_isRead_issued_longDigits ⟨_, h⟩
  obtain ⟨f, hread⟩ := Client.exists_interpret_of_not_read "https://z/sks-cluster-kubeconfig/1"
    (r := ⟨200, issued (String.ofList longDigits)⟩) (by decide) herror hmalformed
  rw [← heq, length_entries_issuance hread] at htext
  cases htext

end Store
end KubeAtlas
