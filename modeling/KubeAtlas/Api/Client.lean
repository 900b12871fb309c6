import KubeAtlas.Api.Signature
import KubeAtlas.Json.Reader
import KubeAtlas.Provider
/-!
# The client of the provider's interface

Three requests are made: for the zones of the account, for the clusters of a zone, and for a
kubeconfig. The client signs each, sends it, and makes sense of the answer. An answer with an error
status, or whose text is not a JSON object, is an error of the interface; an answer without any text
is an empty object.

How a request is carried is left open: `Transport.send` takes it to a status and a text or fails.
-/

namespace KubeAtlas.Api

structure Request where
  method : String
  url : String
  /-- The body, none if it is empty. -/
  data : Option String
  headers : List (String × String)

structure Response where
  status : Int
  body : String

structure Transport (σ : Type) where
  send : Request → Action σ Response
  /-- Called before a request that has a connection of its own, with the client's timeout. -/
  connect : Datum → Action σ Unit

/-- The settings of a client. The key and the secret are text in a sound configuration. -/
structure Client where
  key : Datum
  secret : Datum
  /-- The address of the interface, without slashes at its end. -/
  url : String
  timeout : Datum
  shared : Bool
  /-- The time in whole seconds. -/
  now : Int

def stripSlashes (s : String) : String :=
  String.ofList ((s.toList.reverse.dropWhile (· == '/')).reverse)

def endpointUrl : Datum → Except Failure String
  | .scalar (.str s) => pure (stripSlashes s)
  | .scalar (.bytes _) => throw (.wrongKind .textInBytes)
  | d => throw (.wrongKind (.lacks d.kind "rstrip"))

namespace Client

def build (key secret url timeout : Datum) (shared : Bool) (now : Int) : Except Failure Client := do
  pure ⟨key, secret, ← endpointUrl url, timeout, shared, now⟩

def spelled (d : Datum) : Except Failure String :=
  if d.isShowable then pure d.text else throw .tooLong

def payloadJson (members : List (Datum × Datum)) : Except Failure String :=
  (Json.write .wide (.map members)).mapError .unwritten

def prepare (c : Client) (method url : String) (payload : Option (List (Datum × Datum))) :
    Except Failure Request := do
  let text ← (match payload with
    | some members => payloadJson members
    | none => pure "")
  let signed ← (match Signed.ofUrl method url (Text.Utf8.encode text.toList) (c.now + validity) with
    | .ok s => pure s
    | .error e => throw (.address e))
  let secret ← (match c.secret with
    | .scalar (.str s) => pure (Text.Utf8.encode s.toList)
    | d => throw (.wrongKind (.lacks d.kind "encode")))
  let key ← spelled c.key
  let content := if payload.isSome then [("Content-Type", "application/json")] else []
  pure ⟨method, url, if text.isEmpty then none else some text,
    [("Accept", "application/json"), ("Authorization", signed.header key secret)] ++ content⟩

/-- A text with an integer that is too long is no answer at all. -/
def outOfRange (e : Json.Error) : Failure := .outside (.value e.message)

/-- The message in the text of an error answer: its `message` member, or all of it. -/
def errorText (body : String) : Except Failure String :=
  match Json.read body with
  | .ok (.map members) => match (Datum.map members).get? "message" with
    | some d => pure d.text
    | none => pure body
  | .ok _ => pure body
  | .error e => if e.isMalformed then pure body else throw (outOfRange e)

def interpret (url : String) (r : Response) : Except Failure (List (Datum × Datum)) :=
  if 400 ≤ r.status then do throw (.api (.refused r.status (← errorText r.body)))
  else if r.body.isEmpty then pure []
  else match Json.read r.body with
    | .error e => throw (if e.isMalformed then .api (.invalidJson url e) else outOfRange e)
    | .ok (.map members) => pure members
    | .ok _ => throw (.api (.unexpected url))

def unanswered (context : String) : Failure → Failure
  | .outside (.connection detail) => .api (.unanswered context detail)
  | e => e

variable {σ : Type}

def exchange (c : Client) (t : Transport σ) (method : String) (endpoint : Datum) (path : String)
    (payload : Option (List (Datum × Datum))) : Action σ (List (Datum × Datum)) := do
  let base ← endpointUrl endpoint
  let url := base ++ path
  let request ← c.prepare method url payload
  let context := s!"{method} {url}"
  Action.journal fun j => j.request context (payload.getD [])
  if !c.shared then t.connect c.timeout
  let response ← tryCatch (t.send request) fun e => throw (unanswered context e)
  let members ← interpret url response
  Action.journal fun j => j.response context members
  pure members

/-- The items of a value that is gone through one by one. The characters of a text and the keys of
a mapping are items too. -/
def itemsOf : Datum → Except Failure (List Datum)
  | .list items | .tuple items | .set items => pure items
  | .map entries => pure (entries.map (·.1))
  | .scalar (.str s) => pure (s.toList.map fun c => .str (String.ofList [c]))
  | .scalar (.bytes b) => pure (b.map fun n => .int n.toNat)
  | d => throw (.wrongKind (.notIterable d.kind))

def twoMembers (first second : String) (d : Datum) : Except Failure (Option (Datum × Datum)) :=
  match d with
  | .map _ =>
    match (d.get? first).filter Datum.isTruthy, (d.get? second).filter Datum.isTruthy with
    | some a, some b => pure (some (a, b))
    | _, _ => pure none
  | d => throw (.wrongKind (.lacks d.kind "get"))

/-- Two members of every item of the list under a name; items without them are left out. -/
def listMembers (members : List (Datum × Datum)) (name first second : String) :
    Except Failure (List (Datum × Datum)) := do
  match (Datum.map members).get? name with
  | none => pure []
  | some list => pure ((← (← itemsOf list).mapM (twoMembers first second)).filterMap id)

def zones (c : Client) (t : Transport σ) : Action σ (List Zone) := do
  let members ← c.exchange t "GET" (.str c.url) "/zone" none
  pure ((← listMembers members "zones" "name" "api-endpoint").map fun (a, b) => ⟨a, b⟩)

def clusters (c : Client) (t : Transport σ) (endpoint : Datum) : Action σ (List Listing) := do
  let members ← c.exchange t "GET" endpoint "/sks-cluster" none
  pure ((← listMembers members "sks-clusters" "id" "name").map fun (a, b) => ⟨a, b⟩)

def kubeconfig (c : Client) (t : Transport σ) (endpoint cluster : Datum) (g : Grant) :
    Action σ Datum := do
  let members ← c.exchange t "POST" endpoint ("/sks-cluster-kubeconfig/" ++ cluster.text)
    (some [(.str "groups", .list g.groups), (.str "user", g.user), (.str "ttl", g.ttl)])
  match ((Datum.map members).get? "kubeconfig").filter Datum.isTruthy with
  | some d => pure d
  | none => throw (.api (.noKubeconfig cluster.text))

def provider (c : Client) (t : Transport σ) : Provider σ :=
  ⟨c.zones t, c.clusters t, c.kubeconfig t⟩

end Client
end KubeAtlas.Api
