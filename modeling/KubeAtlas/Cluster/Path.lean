import KubeAtlas.Failure
import KubeAtlas.Text.Split
/-!
# Paths of clusters

A cluster is addressed by the name of its zone and its own name, with a slash between them. Only a
path with exactly one slash and text on both sides is well formed.
-/

namespace KubeAtlas.Cluster

def splitPath (path : String) : Except Failure (String × String) :=
  match Text.splitFirst? '/' path.toList with
  | some (zone, name) =>
    if zone.isEmpty || name.isEmpty || name.contains '/' then
      throw (.path .malformed path none none)
    else pure (String.ofList zone, String.ofList name)
  | none => throw (.path .malformed path none none)

end KubeAtlas.Cluster
