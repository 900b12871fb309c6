import KubeAtlas.CommandLine.Arguments
import KubeAtlas.CommandLine.Echo
import KubeAtlas.Config.Switch
import KubeAtlas.Store.Basic
import KubeAtlas.Store.Credential
import KubeAtlas.Store.Registry
/-!
# Running a command

A command reads the configuration, builds its stores, and asks their providers; which provider a
store has is left open. What it writes is part of its result, together with how it ended. The paths
of a store are written when its search is over, so that of a store whose search fails nothing is
written. What is written passes through `echo`, on the way to a terminal or to something else.
-/

namespace KubeAtlas.CommandLine

inductive Ending where
  | done
  | misuse
  | complaint (message : String)
  /-- A failure that is no report about a store. -/
  | crash (f : Failure)

namespace Ending

def code : Ending → Nat
  | done => 0
  | misuse => 2
  | complaint _ | crash _ => 1

def ofFailure (f : Failure) : Ending := if f.isReport then complaint f.message else crash f

end Ending

structure Result where
  output : String
  ending : Ending

def Result.after (text : String) (r : Result) : Result := { r with output := text ++ r.output }

def lines (texts : List String) : String := String.join (texts.map (· ++ "\n"))

def usage : String := lines [
  "Usage: exoscale-store [OPTIONS] COMMAND [ARGS]...",
  "",
  "Options:",
  "  --config FILE    SwitchConfig file",
  "  --store-id TEXT  Only use the Exoscale store with this id.",
  "  -v, --verbose    Enable debug logging.",
  "  --help           Show this message and exit.",
  "",
  "Commands:",
  "  id               Show the id and context prefix of the configured stores.",
  "  kubeconfig PATH  Print the kubeconfig of a cluster given as zoneName/clusterName.",
  "  search           List the SKS clusters of every zone."]

def entriesFor (env : Environment) (files : String → FileState) (o : Options) :
    Except Failure (List StoreEntry) := do
  let path ← SwitchConfig.pathOf env o.config
  let config ← SwitchConfig.load path (files path)
  let entries := config.storesOfKind Store.kind
  pure (match o.storeId with
    | some id => entries.filter fun e => e.id.str? = some id
    | none => entries)

def registry (env : Environment) (now : Int) : Registry Store :=
  Registry.empty.ensure (Store.ofEntry env now)

/-- The stores that a command is about. There is at least one. -/
def storesFor (env : Environment) (now : Int) (files : String → FileState) (o : Options) :
    Except Ending (List Store) :=
  match entriesFor env files o with
  | .error f => throw (.ofFailure f)
  | .ok [] => throw (.complaint "No Exoscale kubeconfig store configured.")
  | .ok entries =>
    match entries.mapM (registry env now).create with
    | .ok stores => pure stores
    | .error f => throw (.ofFailure f)

def foundPaths {σ : Type} (p : Store.Pass σ) : Except Failure (List String) := do
  let paths ← p.results.mapM fun r => match r with
    | .path path => pure path
    | .failed f => throw f
  match p.failure with
  | some f => throw f
  | none => pure paths

variable {σ : Type}

def searchEnding (s : Store) (f : Failure) : Ending :=
  if f.isReport then
    match s.identifier with
    | .ok id => .complaint s!"{id}: {f.message}"
    | .error f => .crash f
  else .crash f

def search (provide : Store → Provider σ) (terminal : Bool) :
    List Store → World σ → Result × World σ
  | [], w => (⟨"", .done⟩, w)
  | s :: rest, w =>
    let pass := Store.discover (provide s) .empty w
    match foundPaths pass with
    | .error f => (⟨"", searchEnding s f⟩, pass.world)
    | .ok paths =>
      match paths.mapM s.entry.displayPath with
      | .error f => (⟨"", .crash f⟩, pass.world)
      | .ok shown =>
        let (r, w) := search provide terminal rest pass.world
        (r.after (lines (shown.map (echo terminal))), w)

def kubeconfig (provide : Store → Provider σ) (terminal : Bool) (s : Store) (path : String)
    (w : World σ) : Result × World σ :=
  let pass := Store.discover (provide s) .empty w
  match foundPaths pass with
  | .error f => (⟨"", .ofFailure f⟩, pass.world)
  | .ok _ =>
    let answer := Store.kubeconfig (provide s) Kubeconfig.serialize pass.index path
    match answer.perform pass.world with
    | (.ok text, w) => (⟨echo terminal text, .done⟩, w)
    | (.error f, w) => (⟨"", .ofFailure f⟩, w)

def identity (s : Store) : Except Failure String := do
  let name := s.entry.contextPrefix
  let id ← s.identifier
  let shown ← if name.isTruthy then StoreEntry.textOf name else pure "(none)"
  pure s!"{id}  prefix: {shown}"

def identify (terminal : Bool) : List Store → Result
  | [] => ⟨"", .done⟩
  | s :: rest =>
    match identity s with
    | .ok line => (identify terminal rest).after (lines [echo terminal line])
    | .error f => ⟨"", .crash f⟩

/-- How a command ends that is about one store where there are several. -/
def severalEnding (stores : List Store) : Ending :=
  match stores.mapM Store.identifier with
  | .ok ids =>
    let ids := ", ".intercalate ids
    .complaint s!"Several Exoscale stores are configured ({ids}); choose one with --store-id."
  | .error f => .crash f

def carryOut (provide : Store → Provider σ) (terminal : Bool) (stores : List Store) (c : Command)
    (w : World σ) : Result × World σ :=
  match c with
  | .search => search provide terminal stores w
  | .identify => (identify terminal stores, w)
  | .kubeconfig path =>
    match stores with
    | [s] => kubeconfig provide terminal s path w
    | stores => (⟨"", severalEnding stores⟩, w)

def namesDirectory (files : String → FileState) (o : Options) : Bool :=
  match o.config.map files with
  | some .directory => true
  | _ => false

def begun (o : Options) (w : World σ) : World σ :=
  if o.verbose then { w with journal := w.journal.enable } else w

def run (env : Environment) (now : Int) (files : String → FileState)
    (provide : Store → Provider σ) (terminal : Bool) (args : List String) (w : World σ) :
    Result × World σ :=
  match Invocation.read args with
  | .error .help => (⟨usage, .done⟩, w)
  | .error .misuse => (⟨"", .misuse⟩, w)
  | .ok i =>
    if namesDirectory files i.options then (⟨"", .misuse⟩, w)
    else
      match storesFor env now files i.options with
      | .error ending => (⟨"", ending⟩, begun i.options w)
      | .ok stores => carryOut provide terminal stores i.command (begun i.options w)

/-- What is written beside the output: the journal, and the complaint. -/
def complaints (terminal : Bool) (ending : Ending) (j : Journal) : String :=
  let journal := j.entries.map fun e => s!"{e.level.name}:{e.logger}:{e.message}"
  lines (journal ++ match ending with
    | .complaint message => [echo terminal s!"Error: {message}"]
    | _ => [])

end KubeAtlas.CommandLine
