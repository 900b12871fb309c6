import KubeAtlas.Config.Entry
import KubeAtlas.Config.Settings
import KubeAtlas.Text.Split
import KubeAtlas.Text.Utf8
import KubeAtlas.Yaml.Load
/-!
# The configuration file

The file that lists the stores. It is looked for under a path from the environment or below the home
directory. An empty file lists no stores, and what stands beside the list is carried along.

What a path leads to is given as a `FileState`, so that reading the configuration is a function. A
file is taken as a whole and is text or not. A host that takes a long file piece by piece may find
an error in its first pieces before it gets to a byte that is no text.
-/

namespace KubeAtlas

inductive FileState where
  | missing
  | directory
  | file (bytes : List UInt8)
deriving Repr

structure SwitchConfig where
  kind : Datum
  version : Datum
  stores : List StoreEntry
deriving Repr

namespace SwitchConfig

def pathVariable : String := "KUBESWITCHCONFIG"

/-- A directory as paths are written: no repeated or final slashes and no dots that stand for the
directory itself. Exactly two slashes in front are kept apart from one. -/
def cleanDirectory (path : List Char) : String :=
  let slashes := (path.takeWhile (· == '/')).length
  let root := if slashes = 0 then "" else if slashes = 2 then "//" else "/"
  let parts := (Text.splitAll '/' path).filter fun p => !p.isEmpty && p != ['.']
  root ++ "/".intercalate (parts.map String.ofList)

def home (env : Environment) : Except Failure String :=
  let path := ((env "HOME").getD "").toList
  let path := (path.reverse.dropWhile (· == '/')).reverse
  match path with
  | [] => pure "/"
  | '~' :: _ => throw (.outside (.runtime "Could not determine home directory."))
  | path => pure (cleanDirectory path)

def inDirectory (directory file : String) : String :=
  if directory.isEmpty || directory.toList.getLast? == some '/' then directory ++ file
  else directory ++ "/" ++ file

def defaultPath (env : Environment) : Except Failure String :=
  match (env pathVariable).filter fun p => !p.isEmpty with
  | some path => pure path
  | none => do pure (inDirectory (← home env) ".kube/switch-config.yaml")

/-- Where the file is looked for; an empty path counts as none. -/
def pathOf (env : Environment) (path : Option String) : Except Failure String :=
  match path.filter fun p => !p.isEmpty with
  | some path => pure path
  | none => defaultPath env

/-- The text with every line ended by a line feed, whether it was by a return, a line feed or
both. -/
def unifyLines : List Char → List Char
  | [] => []
  | '\r' :: '\n' :: rest => '\n' :: unifyLines rest
  | c :: rest => (if c == '\r' then '\n' else c) :: unifyLines rest

def ofFields (g : Graph) (fields : List (Label × Value)) : Except Failure SwitchConfig := do
  let items ← g.eachOf? (Kubeconfig.field? fields "kubeconfigStores")
  let stores ← items.mapM (StoreEntry.ofValue g)
  let orElse := fun (name value : String) =>
    ((Kubeconfig.field? fields name).map g.unfold).getD (.str value)
  pure ⟨orElse "kind" "SwitchConfig", orElse "version" "v1alpha1", stores⟩

def ofText (path : String) (text : List Char) : Except Failure SwitchConfig :=
  match Yaml.loadText (unifyLines text) with
  | .error (.malformed e) => throw (.configuration (.unparsable path e))
  | .error (.fault f) => throw (.document (.fault f))
  | .ok (v, g) =>
    if !g.isTruthy v then ofFields g []
    else match g.entries? v with
      | some fields => ofFields g fields
      | none => throw (.configuration (.fileNotMapping path))

def load (path : String) : FileState → Except Failure SwitchConfig
  | .missing => throw (.configuration (.fileNotFound path))
  | .directory => throw .directory
  | .file bytes =>
    match Text.Utf8.decode? bytes with
    | some text => ofText path text
    | none => throw .undecodable

def storesOfKind (c : SwitchConfig) (kind : String) : List StoreEntry :=
  c.stores.filter fun e => e.isOfKind kind

end SwitchConfig
end KubeAtlas
