import KubeAtlas.Failure
import KubeAtlas.Table
/-!
# The index of clusters

The clusters that were reported so far, by identifier, and for each zone and name the identifier of
the cluster that was last reported under them. A cluster that is reported again under another path
gives up its former path, unless another cluster has taken it over. Clusters are never removed.

Identifiers and names are text in sound answers of a provider, but nothing checks that. A value that
cannot be a key stops the report where it is first needed as one, and what was written before that
point stays.
-/

namespace KubeAtlas

structure Cluster where
  id : Datum
  name : Datum
  zone : Datum
  /-- The address at which the zone is served. -/
  endpoint : Datum
deriving Repr

namespace Cluster

def path (c : Cluster) : String := c.zone.text ++ "/" ++ c.name.text

def keyOf (d : Datum) : Except Failure Key :=
  match d.key? with
  | some k => pure k
  | none => throw (.wrongKind (.unhashable d.kind))

def pairKey (zone name : Datum) : Except Failure Key := do
  pure (.tuple [← keyOf zone, ← keyOf name])

/-- The zone and name that the cluster is found by. -/
def place (c : Cluster) : Except Failure Key := pairKey c.zone c.name

/-- Clusters by identifier, and identifiers by zone and name. -/
structure Index where
  byId : List (Key × Cluster)
  byPlace : List (Key × Key)
deriving Repr

namespace Index

def empty : Index := ⟨[], []⟩

/-- The clusters in the order in which their identifiers were first reported. -/
def clusters (ix : Index) : List Cluster := ix.byId.map (·.2)

def size (ix : Index) : Nat := ix.byId.length

def find? (ix : Index) (id : Key) : Option Cluster := Table.find? id ix.byId

/-- The cluster at a place. Null identifies no cluster. -/
def at? (ix : Index) (place : Key) : Option Cluster :=
  match Table.find? place ix.byPlace with
  | some (.atom .null) | none => none
  | some id => ix.find? id

def lookup (ix : Index) (zone name : String) : Option Cluster :=
  ix.at? (.tuple [.str zone, .str name])

/-- Forgets the place of a cluster that is reported again, if the place is still its own. -/
def leave (ix : Index) (id : Key) (previous : Cluster) : Except Failure Index := do
  let place ← previous.place
  if Table.find? place ix.byPlace = some id then
    pure { ix with byPlace := Table.erase place ix.byPlace }
  else pure ix

def enter (ix : Index) (id : Key) (c : Cluster) : Index :=
  { ix with byId := Table.put id c ix.byId }

/-- Adds a report of a cluster; with it, what stopped the report if anything did. -/
def add (ix : Index) (c : Cluster) : Index × Option Failure :=
  match keyOf c.id with
  | .error e => (ix, some e)
  | .ok id =>
    let left := match ix.find? id with
      | some previous => ix.leave id previous
      | none => .ok ix
    match left with
    | .error e => (ix, some e)
    | .ok ix =>
      let ix := ix.enter id c
      match c.place with
      | .error e => (ix, some e)
      | .ok place => ({ ix with byPlace := Table.put place id ix.byPlace }, none)

end Index
end Cluster
end KubeAtlas
