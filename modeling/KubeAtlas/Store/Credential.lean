import KubeAtlas.Cluster.Path
import KubeAtlas.Kubeconfig.Text
import KubeAtlas.Provider
import KubeAtlas.Text.Blank
/-!
# Kubeconfigs for paths

A kubeconfig is served for a path that a search has reported. The cluster is found in the index, the
provider is asked once, and its answer is decoded, renamed after the cluster and written again. Each
stage has its own fault, and the failure of a path tells which stage it was.

Asking the provider is the only point at which something else can happen in between, so what comes
before it, `locate`, and what comes after, `materialize`, are functions of their own.
-/

namespace KubeAtlas.Store

/-- What a kubeconfig allows: everything, for thirty days. -/
def fullGrant : Grant :=
  ⟨[.str "system:masters"], .str "default", .int (30 * 24 * 60 * 60)⟩

def locate (ix : Cluster.Index) (path : String) : Except Failure (Cluster × String) := do
  let (zone, name) ← Cluster.splitPath path
  match ix.lookup zone name with
  | some c => pure (c, name)
  | none => throw (.path .notFound path none none)

/-- The bytes of an answer in base64, blanks anywhere allowed. -/
def decode : Datum → Except Failure (List UInt8)
  | .scalar (.str s) =>
    match Text.Base64.decode (Text.squeeze s.toList) with
    | .ok bytes => pure bytes
    | .error e => throw (.base64 e)
  | .scalar (.bytes b) =>
    if b.all Text.isByteBlank then pure [] else throw (.wrongKind .bytesInText)
  | d => throw (.wrongKind (.lacks d.kind "split"))

/-- A failure of a document in a stage: what is wrong with its form is a fault of the stage. -/
def stageFailure (fault : PathFault) (path : String) : Kubeconfig.Failure → Failure
  | .format e => .atPath fault path (.document (.format e))
  | f => .document f

abbrev Writer := Kubeconfig.Document → Except Kubeconfig.Failure String

def materialize (write : Writer) (path name : String) (answer : Datum) :
    Except Failure String := do
  let bytes ← (match decode answer with
    | .ok bytes => pure bytes
    | .error e => throw (.atPath .decoding path e))
  let renamed ← (match Kubeconfig.parse bytes >>= fun d => Kubeconfig.rename d name with
    | .ok d => pure d
    | .error f => throw (stageFailure .parsing path f))
  match write renamed with
  | .ok text => pure text
  | .error f => throw (stageFailure .serialization path f)

variable {σ : Type}

def request (p : Provider σ) (path : String) (c : Cluster) : Action σ Datum :=
  tryCatch (p.kubeconfig c.endpoint c.id fullGrant) fun e => throw (.atPath .generation path e)

def kubeconfig (p : Provider σ) (write : Writer) (ix : Cluster.Index) (path : String) :
    Action σ String := do
  let (c, name) ← locate ix path
  let answer ← request p path c
  materialize write path name answer

end KubeAtlas.Store
