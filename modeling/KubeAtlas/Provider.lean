import KubeAtlas.Cluster.Index
import KubeAtlas.Journal
/-!
# Providers

What a store needs of a provider: its zones, the clusters of a zone, and a kubeconfig for a cluster.
An action takes the world to another world and has a result or a failure; whatever happened to the
world before a failure stays. The part of a world that belongs to the provider is left open.
-/

namespace KubeAtlas

/-- The state of what is outside a store, and the journal. -/
structure World (σ : Type) where
  outside : σ
  journal : Journal

abbrev Action (σ α : Type) := ExceptT Failure (StateM (World σ)) α

namespace World

variable {σ : Type}

def record (w : World σ) (e : Entry) : World σ := { w with journal := w.journal.record e }

end World

def Action.perform {σ α : Type} (a : Action σ α) (w : World σ) : Except Failure α × World σ :=
  StateT.run (ExceptT.run a) w

def Action.journal {σ : Type} (change : Journal → Except Failure Journal) : Action σ Unit := do
  let w ← get
  let journal ← change w.journal
  set { w with journal }

structure Zone where
  name : Datum
  endpoint : Datum
deriving Repr

/-- A cluster as its zone lists it. -/
structure Listing where
  id : Datum
  name : Datum
deriving Repr

structure Grant where
  groups : List Datum
  user : Datum
  ttl : Datum

structure Provider (σ : Type) where
  zones : Action σ (List Zone)
  clusters : Datum → Action σ (List Listing)
  /-- A kubeconfig in base64 for a cluster of the zone that an address serves. -/
  kubeconfig : Datum → Datum → Grant → Action σ Datum

end KubeAtlas
