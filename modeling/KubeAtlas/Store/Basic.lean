import KubeAtlas.Api.Client
import KubeAtlas.Config.Entry
import KubeAtlas.Config.Settings
import KubeAtlas.Store.Search
/-!
# Stores

A store is an entry of the configuration with the client that its settings describe. It is known by
an identifier, and its paths are shown with a name in front: its own if it has one, otherwise its
kind, and none if the configuration says so. Neither is text if the configuration has something else
there, and then it is made text where it is shown.
-/

namespace KubeAtlas

namespace StoreEntry

def identifier (e : StoreEntry) : Except Failure String := do
  let id ← if e.id.isTruthy then textOf e.id else pure "default"
  pure (Store.kind ++ "." ++ id)

/-- The name in front of paths. Only a wish that is neither null nor present turns it off. -/
def contextPrefix (e : StoreEntry) : Datum :=
  match e.showPrefix, e.id with
  | .scalar .null, .scalar .null => .str Store.kind
  | .scalar .null, id => id
  | wish, id =>
    if !wish.isTruthy then .str ""
    else match id with
      | .scalar .null => .str Store.kind
      | id => id

def displayPath (e : StoreEntry) (path : String) : Except Failure String :=
  if e.contextPrefix.isTruthy then do pure ((← textOf e.contextPrefix) ++ "/" ++ path)
  else pure path

end StoreEntry

structure Store where
  entry : StoreEntry
  client : Api.Client

namespace Store

def ofEntry (env : Environment) (now : Int) (e : StoreEntry) : Except Failure Store := do
  let settings ← (match e.config with
    | .scalar .null | .map _ => Settings.ofDatum env e.config
    | _ => throw (.configuration .unusableConfig))
  settings.validate
  pure ⟨e, ← Api.Client.build settings.key settings.secret settings.url (.float settings.timeout)
    false now⟩

def identifier (s : Store) : Except Failure String := s.entry.identifier

def provider {σ : Type} (s : Store) (t : Api.Transport σ) : Provider σ := s.client.provider t

end Store
end KubeAtlas
