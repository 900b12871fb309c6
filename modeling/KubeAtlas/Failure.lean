import KubeAtlas.Json.Error
import KubeAtlas.Json.Writer
import KubeAtlas.Kubeconfig.Basic
import KubeAtlas.Text.Base64
import KubeAtlas.Url.Host
/-!
# What can go wrong

A failure is kept as its cause. Some failures are reports of this library, about a store, a zone, a
path or the configuration; some come from the provider or from whatever carries its answers; and
some are values of the wrong kind in a place that did not expect them. The wording of each is in one
place, `Failure.message`, since a report quotes the failure that led to it.
-/

namespace KubeAtlas

inductive WrongKind where
  | notIterable (k : Kind)
  | lacks (k : Kind) (operation : String)
  /-- Bytes where text is joined. -/
  | bytesInText
  /-- Text where bytes are stripped. -/
  | textInBytes
  | unhashable (k : Kind)
  | notJson (k : Kind)
  | notName (k : Kind)
  | notNumber (k : Kind)
deriving DecidableEq, Repr

def WrongKind.message : WrongKind → String
  | notIterable k => s!"'{k.name}' object is not iterable"
  | lacks k operation => s!"'{k.name}' object has no attribute '{operation}'"
  | bytesInText => "sequence item 0: expected str instance, bytes found"
  | textInBytes => "a bytes-like object is required, not 'str'"
  | unhashable k => s!"unhashable type: '{k.name}'"
  | notJson k => s!"Object of type {k.name} is not JSON serializable"
  | notName k => s!"keys must be str, int, float, bool or None, not {k.name}"
  | notNumber k => s!"float() argument must be a string or a real number, not '{k.name}'"

/-- A failure of what is outside, with its own words. -/
inductive Outside where
  | runtime (message : String)
  | value (message : String)
  | key (name : String)
  | connection (message : String)
  | timeout
deriving DecidableEq, Repr

def Outside.message : Outside → String
  | runtime message | value message | connection message => message
  | key name => Text.quoted name
  | timeout => ""

inductive ApiError where
  | refused (status : Int) (message : String)
  /-- A refusal without a status. -/
  | stated (message : String)
  | unanswered (request : String) (detail : String)
  | invalidJson (url : String) (e : Json.Error)
  | unexpected (url : String)
  | noKubeconfig (cluster : String)
deriving DecidableEq, Repr

def ApiError.message : ApiError → String
  | refused status message => s!"HTTP {status}: {message}"
  | stated message => message
  | unanswered request detail => s!"{request} failed: {detail}"
  | invalidJson url e => s!"invalid JSON from {url}: {e.message}"
  | unexpected url => s!"unexpected response from {url}"
  | noKubeconfig cluster => s!"no kubeconfig returned for SKS cluster {cluster}"

def ApiError.status? : ApiError → Option Int
  | refused status _ => some status
  | _ => none

inductive TimeoutError where
  | wrongKind (k : Kind)
  | text (shown : String)
deriving DecidableEq, Repr

def TimeoutError.message : TimeoutError → String
  | wrongKind k => (WrongKind.notNumber k).message
  | text shown => s!"could not convert string to float: {shown}"

inductive ConfigError where
  | entryNotMapping
  | missingKind
  | configNotMapping (kind : String)
  | unusableConfig
  | invalidTimeout (e : TimeoutError)
  | missingKey
  | missingSecret
  | fileNotFound (path : String)
  | unparsable (path : String) (e : Yaml.Error)
  | fileNotMapping (path : String)
  | stated (message : String)
deriving DecidableEq, Repr

def ConfigError.message : ConfigError → String
  | entryNotMapping => "kubeconfig store entry must be a mapping"
  | missingKind => "kubeconfig store entry is missing 'kind'"
  | configNotMapping kind => s!"config of the {kind} kubeconfig store must be a mapping"
  | unusableConfig => "failed to process Exoscale store config"
  | invalidTimeout e =>
    s!"failed to process Exoscale store config: invalid requestTimeout: {e.message}"
  | missingKey => "when using the Exoscale kubeconfig store, the API key for Exoscale " ++
      "has to be provided via a SwitchConfig file"
  | missingSecret => "when using the Exoscale kubeconfig store, the secret key for Exoscale " ++
      "has to be provided via a SwitchConfig file"
  | fileNotFound path => s!"SwitchConfig file not found at: {path}"
  | unparsable path e => s!"failed to parse SwitchConfig {path}: {e.message}"
  | fileNotMapping path => s!"SwitchConfig {path} must be a mapping"
  | stated message => message

inductive LookupError where
  | unknownKind (shown : String)
  | unregistered (kind : String)
  | stated (message : String)
deriving DecidableEq, Repr

def LookupError.message : LookupError → String
  | unknownKind shown => s!"unknown kubeconfig store kind {shown}"
  | unregistered kind => s!"no kubeconfig store registered for kind {Text.quoted kind}"
  | stated message => message

inductive PathFault where
  | general | malformed | notFound | generation | decoding | parsing | serialization
deriving DecidableEq, Repr

def PathFault.text : PathFault → String
  | general => "kubeconfig path error"
  | malformed => "invalid cluster path (expected 'zoneName/clusterName')"
  | notFound => "no cluster found"
  | generation => "failed to generate kubeconfig"
  | decoding => "failed to decode base64 kubeconfig"
  | parsing => "failed to parse kubeconfig"
  | serialization => "failed to marshal updated kubeconfig"

inductive Failure where
  /-- A report about a store that is none of the others. -/
  | store (message : String)
  | lookup (e : LookupError)
  | configuration (e : ConfigError)
  | unavailable (cause : Failure)
  | unavailableStated (message : String)
  /-- The clusters of a zone cannot be listed; the words of what went wrong. -/
  | zone (name : Datum) (detail : String)
  /-- A path cannot be served; the words of what went wrong, and that failure if it led here. -/
  | path (fault : PathFault) (path : String) (detail : Option String) (cause : Option Failure)
  | api (e : ApiError)
  | document (f : Kubeconfig.Failure)
  | base64 (e : Text.Base64.Error)
  | address (e : Url.Error)
  | wrongKind (w : WrongKind)
  | outside (o : Outside)
  /-- An integer beyond the range of real numbers. -/
  | overflow
  | undecodable
  | directory

namespace Failure

def tooLong : Failure :=
  .outside (.value (s!"Exceeds the limit ({Number.maxDigits} digits) for integer string " ++
    "conversion; use sys.set_int_max_str_digits() to increase the limit"))

def unwritten : Json.Obstacle → Failure
  | .noForm k => .wrongKind (.notJson k)
  | .noName k => .wrongKind (.notName k)
  | .longInteger => tooLong
  | .circular => .outside (.value "Circular reference detected")

def message : Failure → String
  | store message => message
  | lookup e => e.message
  | configuration e => e.message
  | unavailable cause => s!"failed to list zones: {cause.message}"
  | unavailableStated message => message
  | zone name detail => s!"failed to list SKS clusters for zone {name.text}: {detail}"
  | path fault p detail _ =>
    s!"{fault.text} for {Text.quoted p}" ++ match detail with
      | some detail => s!": {detail}"
      | none => ""
  | api e => e.message
  | document (.format e) => e.message
  | document _ => ""
  | base64 e => e.message
  | address e => e.message
  | wrongKind w => w.message
  | outside o => o.message
  | overflow => "int too large to convert to float"
  | undecodable => "invalid text"
  | directory => "is a directory"

def atPath (fault : PathFault) (p : String) (cause : Failure) : Failure :=
  .path fault p (some cause.message) (some cause)

def isReport : Failure → Bool
  | store _ | lookup _ | configuration _ | unavailable _ | unavailableStated _ | zone _ _
  | path _ _ _ _ => true
  | _ => false

end Failure
end KubeAtlas
