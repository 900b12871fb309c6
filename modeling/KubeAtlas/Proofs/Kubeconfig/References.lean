import KubeAtlas.Proofs.Kubeconfig.Contexts
/-!
# References after a renaming

A context refers to a cluster and to a user, and a document refers to a context. A document resolves
if each of these references is the name of an entry. Renaming goes over the names of clusters, the
names of contexts, the references inside contexts and the context in use, each in a step of its own,
and the steps have to agree: what pointed at the old name has to point at the new one, whatever else
is already called by that name. `rename_keeps_references` says that they do, and that nothing is
left under the old name.
-/

namespace KubeAtlas

theorem Value.is_iff {v : Value} {l : Label} : v.is l = true ↔ v.key? = some l.key := by
  rw [is, decide_eq_true_eq]

namespace Kubeconfig

def contextField? (g : Graph) (context : Value) (name : String) : Option Value :=
  (g.entries? context).bind fun es => field? es name

def NamesEntry (v : Value) (es : Entries) : Prop :=
  ∃ k ∈ (Table.keys es : List Key), v.key? = some k

/-- Every reference of the document is the name of an entry. -/
structure Document.Resolves (d : Document) : Prop where
  clusters : ∀ e ∈ d.contexts, ∀ v, contextField? d.graph e.2 "cluster" = some v →
    NamesEntry v d.clusters
  users : ∀ e ∈ d.contexts, ∀ v, contextField? d.graph e.2 "user" = some v → NamesEntry v d.users
  current : d.currentContext = .null ∨ NamesEntry d.currentContext d.contexts

/-- A name that no cluster, no context and no reference to one of them has. -/
structure Document.Forgets (d : Document) (name : String) : Prop where
  clusters : Key.str name ∉ (Table.keys d.clusters : List Key)
  contexts : Key.str name ∉ (Table.keys d.contexts : List Key)
  fields : ∀ e ∈ d.contexts, ∀ v, contextField? d.graph e.2 "cluster" = some v →
    v.is (.str name) = false
  current : d.currentContext.is (.str name) = false

variable {g h : Graph} {old new : String} {contexts : Entries} {v : Value}

theorem is_str_of_ne (hne : old ≠ new) : (Value.str new).is (.str old) = false := by
  simpa [Value.is, Value.key?, Label.key, Scalar.key] using Ne.symm hne

/-! ### Fields of repointed contexts -/

/-- The references of a repointed context: that to the old cluster is one to the new cluster, and
every other field is as it was. -/
theorem contextField?_of_repoints (hrep : Repoints (.str old) new contexts g h) {e : Label × Value}
    (he : e ∈ contexts) (hbody : g.IsMapping e.2) (name : String) :
    contextField? h e.2 name =
      if name = "cluster" ∧ (contextField? g e.2 "cluster").any (·.is (.str old)) = true then
        some (.str new)
      else contextField? g e.2 name := by
  obtain ⟨id, es, hid, hcell⟩ := hbody
  have hmem : id ∈ bodyCells contexts := mem_bodyCells_iff.2 ⟨e.1, hid ▸ he⟩
  have hrepointed : h.cell id = .map (repointed (.str old) new es) := by
    rw [hrep.cell id, if_pos hmem, hcell, repointedCell]
  have hbefore : ∀ name, contextField? g e.2 name = field? es name := by
    intro name
    rw [contextField?, Graph.entries?_eq_some_iff.2 ⟨id, hid, hcell⟩, Option.bind_some]
  have hafter : contextField? h e.2 name = field? (repointed (.str old) new es) name := by
    rw [contextField?, Graph.entries?_eq_some_iff.2 ⟨id, hid, hrepointed⟩, Option.bind_some]
  have hrefers : (field? es "cluster").any (·.is (.str old)) = refersTo (.str old) es := by
    rw [refersTo]
    cases field? es "cluster" with
    | none => rfl
    | some v => rfl
  rw [hafter, hbefore, hbefore, hrefers, repointed]
  by_cases hold : refersTo (.str old) es = true
  · rw [if_pos hold, field?, Table.find?_put]
    have hkey : (Labelled.key (Label.str "cluster") : Key) = Key.str name ↔ name = "cluster" := by
      simp [Labelled.key, Label.key, Scalar.key, eq_comm]
    by_cases hname : name = "cluster"
    · rw [if_pos (hkey.2 hname), if_pos ⟨hname, hold⟩]
    · rw [if_neg (mt hkey.1 hname), if_neg fun hboth => hname hboth.1, field?]
  · rw [if_neg hold, if_neg fun hboth => hold hboth.2]

/-! ### Names of contexts -/

theorem mem_keys_renameKey {k : Key} {es : Entries} :
    k ∈ (Table.keys (renameKey (.str old) new es) : List Key) ↔
      ∃ l ∈ (Table.keys es : List Key), (if l = .str old then .str new else l) = k := by
  have hmap : renameKey (.str old) new es = Table.ofList (es.map (relabel old new)) := rfl
  rw [hmap, Table.mem_keys_ofList, keys_map_relabel, List.mem_map]

theorem old_notMem_renameKey (hne : old ≠ new) (es : Entries) :
    Key.str old ∉ (Table.keys (renameKey (.str old) new es) : List Key) := by
  intro hmem
  obtain ⟨l, -, hl⟩ := mem_keys_renameKey.1 hmem
  by_cases hold : l = .str old
  · rw [if_pos hold] at hl
    exact hne (by simpa using hl.symm)
  · rw [if_neg hold] at hl
    exact hold hl

/-! ### The renamed document -/

variable {d : Document} {body : Value}

theorem Document.Resolves.withName (hd : d.WellFormed) (hcluster : d.clusters = [(.str old, body)])
    (hrep : Repoints (.str old) new d.contexts d.graph h) (hres : d.Resolves) :
    (d.withName old new body h).Resolves := by
  constructor
  case clusters =>
    intro e he v hv
    obtain ⟨l, hl⟩ := exists_of_mem_renameKey he
    rw [Document.withName, contextField?_of_repoints hrep hl (hd.mappings .contexts _ hl)] at hv
    refine ⟨.str new, List.mem_singleton_self _, ?_⟩
    split at hv
    · obtain rfl := Option.some.inj hv
      rfl
    · next hnot =>
        -- the reference resolved before, and then it was one to the only cluster
        obtain ⟨k, hk, hkey⟩ := hres.clusters _ hl v hv
        rw [hcluster] at hk
        obtain rfl := List.mem_singleton.1 hk
        have hold : v.is (.str old) = true := Value.is_iff.2 hkey
        exact absurd ⟨rfl, by rw [hv, Option.any_some, hold]⟩ hnot
  case users =>
    intro e he v hv
    obtain ⟨l, hl⟩ := exists_of_mem_renameKey he
    rw [Document.withName, contextField?_of_repoints hrep hl (hd.mappings .contexts _ hl),
      if_neg fun hboth => absurd hboth.1 (by decide)] at hv
    exact hres.users _ hl v hv
  case current =>
    rcases hres.current with hnull | ⟨k, hk, hkey⟩
    · refine .inl ?_
      rw [Document.withName, hnull]
      rfl
    · refine .inr ⟨if k = .str old then .str new else k, mem_keys_renameKey.2 ⟨k, hk, rfl⟩, ?_⟩
      rw [Document.withName]
      by_cases hold : k = .str old
      · have his : d.currentContext.is (.str old) = true :=
          Value.is_iff.2 (hkey.trans (congrArg some hold))
        rw [if_pos hold, if_pos his]
        rfl
      · have hnot : ¬ d.currentContext.is (.str old) = true := fun his =>
          hold (Option.some.inj (hkey.symm.trans (Value.is_iff.1 his)))
        rw [if_neg hold, if_neg hnot, hkey]

theorem Document.WellFormed.withName_forgets (hd : d.WellFormed) (hne : old ≠ new)
    (hrep : Repoints (.str old) new d.contexts d.graph h) :
    (d.withName old new body h).Forgets old := by
  constructor
  case clusters =>
    intro hmem
    have hkey : Key.str old = Key.str new := List.mem_singleton.1 hmem
    exact hne (by simpa using hkey)
  case contexts => exact old_notMem_renameKey hne d.contexts
  case fields =>
    intro e he v hv
    obtain ⟨l, hl⟩ := exists_of_mem_renameKey he
    rw [Document.withName, contextField?_of_repoints hrep hl (hd.mappings .contexts _ hl)] at hv
    split at hv
    · obtain rfl := Option.some.inj hv
      exact is_str_of_ne hne
    · next hnot =>
        by_contra his
        rw [Bool.not_eq_false] at his
        exact hnot ⟨rfl, by rw [hv, Option.any_some, his]⟩
  case current =>
    rw [Document.withName]
    split
    · exact is_str_of_ne hne
    · next hnot => simpa using hnot

/-- **Renaming leaves no reference behind.** A document for at most one cluster is renamed; if all
its references resolve, they still do; and if the name of the cluster changes, the cluster has the
new name and nothing has the old one. -/
theorem rename_keeps_references {d : Document} {new : String} (hd : d.WellFormed)
    (hone : d.clusters.length ≤ 1) (hnew : new ≠ "") :
    ∃ d', rename d new = .ok d' ∧ (d.Resolves → d'.Resolves) ∧
      ∀ old body, d.clusters = [(.str old, body)] → old ≠ new →
        d'.clusters = [(.str new, body)] ∧ d'.Forgets old := by
  rcases hclusters : d.clusters with _ | ⟨⟨l, body⟩, _ | ⟨e, rest⟩⟩
  · exact ⟨d, rename_of_no_cluster hclusters hnew, id, fun old body h => by cases h⟩
  · obtain ⟨old, hold⟩ := hd.named .clusters (l, body) (by simp [Document.entries, hclusters])
    obtain rfl : l = .str old := hold
    by_cases hne : old = new
    · refine ⟨d, rename_same (hne ▸ hclusters) hnew, id, fun other body' h hother => ?_⟩
      cases h
      exact absurd hne hother
    · obtain ⟨h, hrep, hok⟩ := rename_single hd hclusters hnew hne
      refine ⟨_, hok, Document.Resolves.withName hd hclusters hrep, fun other body' heq _ => ?_⟩
      cases heq
      exact ⟨rfl, hd.withName_forgets hne hrep⟩
  · rw [hclusters] at hone
    simp at hone

def twoUsers : Document := { twoContexts with users := [(.str "u", .ref 0), (.str "v", .ref 0)] }

theorem wellFormed_twoUsers : twoUsers.WellFormed where
  named := by rintro (_ | _ | _) <;> simp [Document.entries, twoUsers, twoContexts]
  distinct := by rintro (_ | _ | _) <;> decide
  mappings := by
    rintro (_ | _ | _) <;>
      simp [Document.entries, twoUsers, twoContexts, Graph.IsMapping, Graph.cell]
  current := .inr ⟨"b", rfl⟩
  labels := by simp [twoUsers, twoContexts]

theorem resolves_twoUsers : twoUsers.Resolves := by
  have hcontexts : ∀ e ∈ twoUsers.contexts, e = (.str "a", .ref 1) ∨ e = (.str "b", .ref 2) := by
    simp [twoUsers, twoContexts]
  constructor
  case clusters =>
    intro e he v hv
    obtain rfl | rfl := hcontexts e he
    · cases hv
      exact ⟨.str "a", by decide, rfl⟩
    · cases hv
      exact ⟨.str "a", by decide, rfl⟩
  case users =>
    intro e he v hv
    obtain rfl | rfl := hcontexts e he
    · cases hv
      exact ⟨.str "u", by decide, rfl⟩
    · cases hv
      exact ⟨.str "v", by decide, rfl⟩
  case current => exact .inr ⟨.str "b", by decide, rfl⟩

/-- The new name is that of another context, which is the one in use. -/
theorem rename_keeps_references_taken :
    ∃ d', rename twoUsers "b" = .ok d' ∧ d'.Resolves ∧ d'.clusters = [(.str "b", .ref 0)] ∧
      d'.Forgets "a" := by
  obtain ⟨d', hok, hresolves, hname⟩ := rename_keeps_references wellFormed_twoUsers
    (by decide) (show "b" ≠ "" by decide)
  obtain ⟨hcluster, hforgets⟩ := hname "a" (.ref 0) rfl (by decide)
  exact ⟨d', hok, hresolves resolves_twoUsers, hcluster, hforgets⟩

end Kubeconfig
end KubeAtlas
