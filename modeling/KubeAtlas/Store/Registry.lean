import KubeAtlas.Config.Entry
import KubeAtlas.Store.Search
/-!
# The registry of kinds

Which kinds of stores can be built, and how. What is built is left open. An entry whose kind is not
one of those that exist is told apart from one whose kind is merely not registered.
-/

namespace KubeAtlas

inductive StoreKind where
  | exoscale
deriving DecidableEq, Repr

namespace StoreKind

def all : List StoreKind := [exoscale]

def name : StoreKind → String
  | exoscale => Store.kind

def ofDatum? (d : Datum) : Option StoreKind := all.find? fun k => d.str? = some k.name

end StoreKind

instance : Labelled StoreKind StoreKind := ⟨id⟩

abbrev Factory (α : Type) := StoreEntry → Except Failure α

structure Registry (α : Type) where
  factories : List (StoreKind × Factory α)

namespace Registry

variable {α : Type}

def empty : Registry α := ⟨[]⟩

def kinds (r : Registry α) : List StoreKind := r.factories.map (·.1)

def find? (r : Registry α) (k : StoreKind) : Option (Factory α) := Table.find? k r.factories

def has (r : Registry α) (k : StoreKind) : Bool := (r.find? k).isSome

/-- Registers a factory; it takes the place of an earlier one. -/
def register (r : Registry α) (k : StoreKind) (f : Factory α) : Registry α :=
  ⟨Table.put k f r.factories⟩

def ensure (r : Registry α) (f : Factory α) : Registry α :=
  if r.factories.isEmpty then r.register .exoscale f else r

def create (r : Registry α) (e : StoreEntry) : Except Failure α :=
  match StoreKind.ofDatum? e.kind with
  | none =>
    if e.kind.isShowable then throw (.lookup (.unknownKind e.kind.display))
    else throw (.document (.fault .number))
  | some kind =>
    match r.find? kind with
    | none => throw (.lookup (.unregistered kind.name))
    | some build => build e

end Registry
end KubeAtlas
