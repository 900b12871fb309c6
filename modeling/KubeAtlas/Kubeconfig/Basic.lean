import KubeAtlas.Graph.Unfold
import KubeAtlas.Yaml.Error
/-!
# Kubeconfig documents

A kubeconfig names clusters, users, and contexts that pair one of each, and says which context is
in use. In the written form each part is a list of entries, a name beside a body; here a part
is a table from names to bodies. Everything else at the top level is carried along, and so is the
order of the keys, so that a document can be written back with its layout.

All values live in one graph, because bodies can be shared within a document.
-/

namespace KubeAtlas.Kubeconfig

inductive Part where
  | clusters | contexts | users
deriving DecidableEq, Repr

namespace Part

/-- The parts in the order in which missing ones are written. -/
def all : List Part := [clusters, contexts, users]

def key : Part → String
  | clusters => "clusters"
  | contexts => "contexts"
  | users => "users"

def bodyKey : Part → String
  | clusters => "cluster"
  | contexts => "context"
  | users => "user"

end Part

def currentContextKey : String := "current-context"

abbrev Entries := List (Label × Value)

structure Document where
  graph : Graph
  clusters : Entries
  contexts : Entries
  users : Entries
  /-- The name of the context in use, null if there is none. -/
  currentContext : Value
  /-- What stands under any other key. -/
  extra : Entries
  /-- The keys of the top level as they were found. -/
  keyOrder : List Value

namespace Document

def entries (d : Document) : Part → Entries
  | .clusters => d.clusters
  | .contexts => d.contexts
  | .users => d.users

end Document

inductive FormatError where
  | invalidYaml (e : Yaml.Error)
  | notMapping
  | notList (p : Part)
  | unnamedEntry (p : Part)
  | bodyNotMapping (p : Part) (name : String)
  | emptyName
  | severalClusters (names : List String)
  | unserializable (e : Yaml.Error)
  | stated (message : String)
deriving DecidableEq, Repr

def FormatError.message : FormatError → String
  | invalidYaml e => s!"invalid YAML: {e.message}"
  | notMapping => "kubeconfig must be a mapping"
  | notList p => s!"'{p.key}' must be a list"
  | unnamedEntry p => s!"every entry of '{p.key}' needs a name"
  | bodyNotMapping p name => s!"'{p.bodyKey}' of {p.key} entry {name} must be a mapping"
  | emptyName => "new cluster name must not be empty"
  | severalClusters names =>
    s!"expected exactly one cluster, found {names.length}: " ++ ", ".intercalate names
  | unserializable e => s!"cannot serialize kubeconfig: {e.message}"
  | stated message => message

/-- Why an operation on a document fails. Only the first is a statement about its form; the others
are values of the wrong kind where the operation relies on the right one. -/
inductive Failure where
  | format (e : FormatError)
  /-- A scalar that does not fit its tag, or is too long to be written. -/
  | fault (f : Yaml.Fault)
  /-- A collection among the keys of the top level. -/
  | unusableKey
  | clusterNames
  | context
deriving DecidableEq, Repr

end KubeAtlas.Kubeconfig
