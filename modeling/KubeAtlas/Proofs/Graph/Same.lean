import KubeAtlas.Proofs.Graph.Cells
import KubeAtlas.Proofs.Table
/-!
# Values that compare equal

Containers are compared by what they hold: lists item by item, mappings key by key, whatever the
order of the keys. A container is equal to itself without being looked into, so that values that
hold themselves can be compared too, as long as they differ above the point where they do.
-/

namespace KubeAtlas.Graph

/-- Whether two values compare equal. -/
inductive Same (g : Graph) : Value → Value → Prop
  | refl (v : Value) : Same g v v
  | list {v w : Value} {xs ys : List Value} (hv : g.items? v = some xs) (hw : g.items? w = some ys)
      (hlength : xs.length = ys.length) (hitems : ∀ x y, (x, y) ∈ xs.zip ys → Same g x y) :
      Same g v w
  | map {v w : Value} {es fs : List (Label × Value)} (hv : g.entries? v = some es)
      (hw : g.entries? w = some fs) (hkeys : (Table.keys es : List Key).Perm (Table.keys fs))
      (hvalues : ∀ k x y, Table.find? k es = some x → Table.find? k fs = some y → Same g x y) :
      Same g v w

/-- Tables with the same labels in the same order, whose values compare equal. -/
structure SameEntries (g : Graph) (es fs : List (Label × Value)) : Prop where
  labels : es.map (·.1) = fs.map (·.1)
  values : ∀ k x y, Table.find? k es = some x → Table.find? k fs = some y → g.Same x y

end KubeAtlas.Graph
