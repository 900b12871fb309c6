import KubeAtlas.Failure
/-!
# Settings of a store

What a store needs to reach the provider: a key and a secret, the address of the interface, and a
timeout. They stand in the configuration under names of their own; the key and the secret may come
from the environment instead, and the address and the timeout have defaults. Whatever the
configuration gives in place of a text is kept as it stands.
-/

namespace KubeAtlas

abbrev Environment := String → Option String

namespace Settings

def defaultUrl : String := "https://api-ch-gva-2.exoscale.com/v2"

def defaultTimeout : Binary64 := Binary64.ofRatio false 60 1

def keyVariable : String := "EXOSCALE_API_KEY"

def secretVariable : String := "EXOSCALE_API_SECRET"

end Settings

structure Settings where
  key : Datum
  secret : Datum
  url : Datum
  timeout : Binary64
deriving Repr

namespace Settings

def invalid (e : TimeoutError) : Failure := .configuration (.invalidTimeout e)

/-- The number in a text, which is shown as given if there is none. -/
def numberIn (text : List Char) (shown : String) : Except Failure Binary64 :=
  match Number.lenient? text with
  | some x => pure x
  | none => throw (invalid (.text shown))

/-- A number of seconds. Truth values are numbers, and text is read as a person types it. -/
def timeoutOf : Datum → Except Failure Binary64
  | .scalar (.bool b) => pure (Binary64.ofRatio false (if b then 1 else 0) 1)
  | .scalar (.int n) =>
    match Binary64.ofInt? n with
    | some x => pure x
    | none => throw .overflow
  | .scalar (.float x) => pure x
  | .scalar (.str s) => numberIn s.toList (Text.quoted s)
  | .scalar (.bytes b) =>
    let shown := Text.quotedBytes b
    if b.all (· < 128) then numberIn (b.map fun n => Char.ofNat n.toNat) shown
    else throw (invalid (.text shown))
  | d => throw (invalid (.wrongKind d.kind))

def present? (fields : List (Datum × Datum)) (name : String) : Option Datum :=
  ((Datum.map fields).get? name).filter Datum.isTruthy

def ofFields (env : Environment) (fields : List (Datum × Datum)) : Except Failure Settings := do
  let timeout ← (match (Datum.map fields).get? "requestTimeout" with
    | some d => timeoutOf d
    | none => pure defaultTimeout)
  let fromEnvironment := fun (name : String) => Datum.str ((env name).getD "")
  pure ⟨(present? fields "exoscaleAPIKey").getD (fromEnvironment keyVariable),
    (present? fields "exoscaleSecretKey").getD (fromEnvironment secretVariable),
    (present? fields "apiURL").getD (.str defaultUrl), timeout⟩

/-- The settings that a value describes. A value that counts as absent describes the defaults. -/
def ofDatum (env : Environment) : Datum → Except Failure Settings
  | .map fields => ofFields env fields
  | d => if d.isTruthy then throw (.wrongKind (.lacks d.kind "get")) else ofFields env []

def validate (s : Settings) : Except Failure Unit :=
  if !s.key.isTruthy then throw (.configuration .missingKey)
  else if !s.secret.isTruthy then throw (.configuration .missingSecret)
  else pure ()

end Settings
end KubeAtlas
