import KubeAtlas.Failure
/-!
# The journal

Messages are recorded with their level, the name of the journal they belong to and, for messages
about a store, its kind. Warnings and worse are always recorded, everything when the journal is
verbose. Requests and answers are recorded as JSON, the members that hold secrets blotted out; a
payload that has no JSON form is shown with its brackets instead. A payload with an integer of too
many digits can be neither written nor shown, and one inside itself cannot be written: the attempt
to record it fails, if the journal is verbose.
-/

namespace KubeAtlas

inductive Level where
  | debug | info | warning | error | critical
deriving DecidableEq, Repr

def Level.name : Level → String
  | debug => "DEBUG"
  | info => "INFO"
  | warning => "WARNING"
  | error => "ERROR"
  | critical => "CRITICAL"

/-- Whether messages of the level are recorded in any case. -/
def Level.isGrave : Level → Bool
  | debug | info => false
  | warning | error | critical => true

structure Entry where
  level : Level
  logger : String
  /-- The kind of the store that the message is about. -/
  store : Option String
  message : String
deriving DecidableEq, Repr

structure Journal where
  verbose : Bool
  entries : List Entry
deriving DecidableEq, Repr

namespace Journal

def childName (name : String) : String := "exoscale_store." ++ name

def quiet : Journal := ⟨false, []⟩

def record (j : Journal) (e : Entry) : Journal :=
  if j.verbose || e.level.isGrave then { j with entries := j.entries ++ [e] } else j

def enable (j : Journal) : Journal :=
  { j with verbose := true }.record ⟨.debug, "exoscale_store", none, "Verbose debug mode enabled"⟩

def secretNames : List String := ["kubeconfig", "authorization", "secret", "exoscaleSecretKey"]

def isSecret (name : Datum) : Bool := secretNames.any fun s => name.key? = some (.str s)

def redact (members : List (Datum × Datum)) : List (Datum × Datum) :=
  members.map fun (k, v) => (k, if isSecret k then .str "<redacted>" else v)

def textOf (d : Datum) : Except Failure String :=
  match Json.write .compact d with
  | .ok text => pure text
  | .error (.noForm _) | .error (.noName _) =>
    if d.isShowable then pure d.display else throw .tooLong
  | .error o => throw (.unwritten o)

def payloadText (members : List (Datum × Datum)) : Except Failure String :=
  textOf (.map (redact members))

def recordPayload (j : Journal) (logger heading : String) (members : List (Datum × Datum)) :
    Except Failure Journal := do
  let text ← payloadText members
  pure (j.record ⟨.debug, childName logger, none, heading ++ text⟩)

def request (j : Journal) (context : String) (members : List (Datum × Datum)) :
    Except Failure Journal :=
  if j.verbose then j.recordPayload "request" s!"{context} request: " members else pure j

def response (j : Journal) (context : String) (members : List (Datum × Datum)) :
    Except Failure Journal :=
  if j.verbose then j.recordPayload "response" s!"{context} response: " members else pure j

end Journal
end KubeAtlas
