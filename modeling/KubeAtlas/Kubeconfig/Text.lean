import KubeAtlas.Kubeconfig.Rename
import KubeAtlas.Yaml.Load
import KubeAtlas.Yaml.Write
/-!
# Kubeconfigs as YAML

`parse` reads a document from bytes and `serialize` writes it. An empty stream is an empty document.
-/

namespace KubeAtlas.Kubeconfig

def parse (bytes : List UInt8) : Except Failure Document :=
  match Yaml.loadBytes bytes with
  | .error (.malformed e) => throw (.format (.invalidYaml e))
  | .error (.fault f) => throw (.fault f)
  | .ok (v, g) =>
    match v with
    | .leaf (.scalar .null) => Document.ofMapping g []
    | v =>
      match g.entries? v with
      | some top => Document.ofMapping g top
      | none => throw (.format .notMapping)

def serialize (d : Document) : Except Failure String := do
  let (top, g) ← d.toMapping
  let (id, g) := g.alloc (.map top)
  match Yaml.write g (.ref id) with
  | .ok text => pure text
  | .error (.malformed e) => throw (.format (.unserializable e))
  | .error (.fault f) => throw (.fault f)

end KubeAtlas.Kubeconfig
