import KubeAtlas.Proofs.Kubeconfig.References
/-!
# Renaming twice

A document that is renamed to a name nobody uses, and then to another one, is the document that is
renamed to the other one at once. The first renaming must not mix what refers to the cluster with
anything else; that the second name may be taken, or be the first name of the cluster again, does
not matter, since the two ways meet the same collisions in the same order.

Each step of a renaming is shown to compose on its own: the bodies of contexts cell by cell, the
names of contexts as lists before they are made a table, and the context in use. To have one law
for all names, renaming the cluster to the name that it has is taken as a step like any other; it
changes nothing (`rename_to`).
-/

namespace KubeAtlas

namespace Kubeconfig

variable {g h k : Graph} {old fresh new : String} {es contexts : Entries}

/-! ### The bodies of contexts -/

theorem refersTo_str_iff {name : String} :
    refersTo (.str name) es = true ↔ field? es "cluster" = some (.str name) := by
  rw [refersTo]
  constructor
  · intro hrefers
    have hkey := Value.is_iff.1 hrefers
    cases hfield : field? es "cluster" with
    | none =>
        rw [hfield] at hkey
        simp [Value.key?, Label.key, Scalar.key] at hkey
    | some v =>
        rw [hfield, Option.getD_some] at hkey
        cases v with
        | ref id => cases hkey
        | leaf l => rw [Label.eq_str_of_key (Option.some.inj hkey)]
  · intro hfield
    rw [hfield]
    exact Value.is_iff.2 rfl

theorem repointed_same (old : String) (es : Entries) : repointed (.str old) old es = es := by
  rw [repointed]
  split
  · next hrefers => exact Table.put_of_find? (refersTo_str_iff.1 hrefers)
  · rfl

theorem repointed_repointed (hfresh : refersTo (.str fresh) es = false) :
    repointed (.str fresh) new (repointed (.str old) fresh es) = repointed (.str old) new es := by
  by_cases hrefers : refersTo (.str old) es = true
  · have hmiddle : repointed (.str old) fresh es =
        Table.put (Label.str "cluster") (.str fresh) es := by
      rw [repointed, if_pos hrefers]
    have hthen :
        refersTo (.str fresh) (Table.put (Label.str "cluster") (.str fresh) es) = true := by
      rw [refersTo_str_iff, field?, Table.find?_put]
      exact if_pos rfl
    rw [hmiddle, repointed, if_pos hthen, repointed, if_pos hrefers]
    exact Table.put_put _ _ _ es
  · have hmiddle : repointed (.str old) fresh es = es := by rw [repointed, if_neg hrefers]
    rw [hmiddle, repointed, if_neg (by simp [hfresh]), repointed, if_neg hrefers]

theorem repoints_same (old : String) (contexts : Entries) (g : Graph) :
    Repoints (.str old) old contexts g g := by
  refine ⟨rfl, fun id => ?_⟩
  split
  · cases g.cell id with
    | map es => rw [repointedCell, repointed_same]
    | _ => rfl
  · rfl

theorem Repoints.unique {old : Label} (hh : Repoints old new contexts g h)
    (hk : Repoints old new contexts g k) : h = k :=
  Graph.eq_of_cells (hh.size.trans hk.size.symm) fun id => (hh.cell id).trans (hk.cell id).symm

/-- Repointing to a name that no context refers to, and then from it on. -/
theorem Repoints.trans {others : Entries} (hfirst : Repoints (.str old) fresh contexts g h)
    (hthen : Repoints (.str fresh) new others h k)
    (hbodies : ∀ id, id ∈ bodyCells others ↔ id ∈ bodyCells contexts)
    (hfresh : ∀ id ∈ bodyCells contexts, ∀ es, g.cell id = .map es →
      refersTo (.str fresh) es = false) :
    Repoints (.str old) new contexts g k := by
  refine ⟨hthen.size.trans hfirst.size, fun id => ?_⟩
  rw [hthen.cell id, hfirst.cell id]
  by_cases hbody : id ∈ bodyCells contexts
  · rw [if_pos ((hbodies id).2 hbody), if_pos hbody, if_pos hbody]
    cases hcell : g.cell id with
    | map es =>
        show Cell.map (repointed _ _ (repointed _ _ es)) = Cell.map (repointed _ _ es)
        rw [repointed_repointed (hfresh id hbody es hcell)]
    | _ => rfl
  · rw [if_neg (mt (hbodies id).1 hbody), if_neg hbody, if_neg hbody]

/-! ### The names of contexts -/

theorem renamedTo_renamedTo {name : String} (hname : name ≠ fresh) :
    renamedTo fresh new (renamedTo old fresh name) = renamedTo old new name := by
  unfold renamedTo
  by_cases hold : name = old
  · rw [if_pos hold, if_pos rfl, if_pos hold]
  · rw [if_neg hold, if_neg hname, if_neg hold]

theorem renameKey_eq_ofList (old new : String) (es : Entries) :
    renameKey (.str old) new es = Table.ofList (es.map (relabel old new)) := rfl

theorem renameKey_same (hnames : ∀ e ∈ es, ∃ name, e.1 = .str name)
    (hdistinct : (Table.keys es : List Key).Nodup) (old : String) :
    renameKey (.str old) old es = es := by
  have hmap : es.map (relabel old old) = es := by
    refine (List.map_congr_left ?_).trans (List.map_id es)
    rintro ⟨l, v⟩ he
    obtain ⟨name, rfl⟩ := hnames (l, v) he
    rw [relabel_str, renamedTo_self, id_eq]
  rw [renameKey_eq_ofList, hmap, Table.ofList_of_nodup hdistinct]

/-- Names that are given twice. The names in between are all different, so that they make a table
as they stand. -/
theorem renameKey_renameKey (hnames : ∀ e ∈ es, ∃ name, e.1 = .str name)
    (hdistinct : (Table.keys es : List Key).Nodup)
    (hfresh : Key.str fresh ∉ (Table.keys es : List Key)) (hne : old ≠ fresh) :
    renameKey (.str fresh) new (renameKey (.str old) fresh es) = renameKey (.str old) new es := by
  rw [renameKey_eq_map hne hdistinct fun hcollides => hfresh hcollides.2, renameKey_eq_ofList,
    renameKey_eq_ofList, List.map_map]
  apply congrArg Table.ofList
  apply List.map_congr_left
  rintro ⟨l, v⟩ he
  obtain ⟨name, rfl⟩ := hnames (l, v) he
  have hname : name ≠ fresh := by
    rintro rfl
    exact hfresh (List.mem_map_of_mem he)
  rw [Function.comp_apply, relabel_str, relabel_str, relabel_str, renamedTo_renamedTo hname]

theorem bodyCells_map_relabel (old new : String) (es : Entries) :
    bodyCells (es.map (relabel old new)) = bodyCells es := by
  rw [bodyCells, List.filterMap_map]
  apply List.filterMap_congr
  intro e _
  rw [Function.comp_apply, relabel, apply_ite Prod.snd, ite_self]

/-! ### Documents -/

/-- A name that no context and no reference to a cluster or a context has. -/
structure Document.Unused (d : Document) (name : String) : Prop where
  contexts : Key.str name ∉ (Table.keys d.contexts : List Key)
  fields : ∀ e ∈ d.contexts, ∀ v, contextField? d.graph e.2 "cluster" = some v →
    v.is (.str name) = false
  current : d.currentContext.is (.str name) = false

variable {d : Document} {body : Value}

theorem Document.Unused.refersTo (hfresh : d.Unused fresh) {id : Nat}
    (hid : id ∈ bodyCells d.contexts) (hcell : d.graph.cell id = .map es) :
    Kubeconfig.refersTo (.str fresh) es = false := by
  obtain ⟨l, hl⟩ := mem_bodyCells_iff.1 hid
  by_contra hrefers
  rw [Bool.not_eq_false] at hrefers
  have hfield : contextField? d.graph (.ref id) "cluster" = some (.str fresh) := by
    rw [contextField?, Graph.entries?_eq_some_iff.2 ⟨id, rfl, hcell⟩, Option.bind_some]
    exact refersTo_str_iff.1 hrefers
  have his := hfresh.fields _ hl _ hfield
  rw [Value.is_iff.2 rfl] at his
  cases his

theorem Document.WellFormed.withName_same (hd : d.WellFormed)
    (hcluster : d.clusters = [(.str old, body)]) : d.withName old old body d.graph = d := by
  have hcurrent : (if d.currentContext.is (.str old) then Value.str old else d.currentContext) =
      d.currentContext := by
    split
    · next his =>
        rcases hd.current with hnull | ⟨name, hname⟩
        · rw [hnull] at his
          cases his
        · rw [hname] at his ⊢
          obtain rfl : name = old := by
            simpa [Value.is, Value.key?, Label.key, Scalar.key] using his
          rfl
    · rfl
  have hcontexts : renameKey (.str old) old d.contexts = d.contexts :=
    renameKey_same (hd.named .contexts) (hd.distinct .contexts) old
  rw [Document.withName, hcurrent, hcontexts, ← hcluster]

theorem rename_to (hd : d.WellFormed) (hcluster : d.clusters = [(.str old, body)])
    (hnew : new ≠ "") :
    ∃ h, Repoints (.str old) new d.contexts d.graph h ∧
      rename d new = .ok (d.withName old new body h) := by
  by_cases hne : old = new
  · subst hne
    refine ⟨d.graph, repoints_same old _ _, ?_⟩
    rw [rename_same hcluster hnew, hd.withName_same hcluster]
  · exact rename_single hd hcluster hnew hne

theorem Document.WellFormed.withName_withName (hd : d.WellFormed) (hne : old ≠ fresh)
    (hfresh : d.Unused fresh) (hfirst : Repoints (.str old) fresh d.contexts d.graph h)
    (hthen : Repoints (.str fresh) new (d.withName old fresh body h).contexts h k) :
    (d.withName old fresh body h).withName fresh new body k = d.withName old new body k ∧
      Repoints (.str old) new d.contexts d.graph k := by
  have hcontexts : (d.withName old fresh body h).contexts = d.contexts.map (relabel old fresh) :=
    renameKey_eq_map hne (hd.distinct .contexts) fun hcollides => hfresh.contexts hcollides.2
  have hcurrent : (if (d.withName old fresh body h).currentContext.is (.str fresh) then
      Value.str new else (d.withName old fresh body h).currentContext) =
      if d.currentContext.is (.str old) then Value.str new else d.currentContext := by
    by_cases hold : d.currentContext.is (.str old) = true
    · have hmiddle : (d.withName old fresh body h).currentContext = .str fresh := if_pos hold
      rw [hmiddle, if_pos (Value.is_iff.2 rfl), if_pos hold]
    · have hmiddle : (d.withName old fresh body h).currentContext = d.currentContext := if_neg hold
      rw [hmiddle, if_neg (by simp [hfresh.current]), if_neg hold]
  constructor
  · have hkeys : renameKey (.str fresh) new (d.withName old fresh body h).contexts =
        renameKey (.str old) new d.contexts :=
      renameKey_renameKey (hd.named .contexts) (hd.distinct .contexts) hfresh.contexts hne
    rw [Document.withName, hkeys, hcurrent]
    rfl
  · apply hfirst.trans hthen
    · intro id
      rw [hcontexts, bodyCells_map_relabel]
    · intro id hid es hcell
      exact hfresh.refersTo hid hcell

/-- **Renamings compose.** By way of a name that is not in use, a document for one cluster is
renamed to the same document as at once, whatever the second name is; and the way back to the first
name restores it. -/
theorem rename_by_way_of {d : Document} {old fresh new : String} {body : Value} (hd : d.WellFormed)
    (hcluster : d.clusters = [(.str old, body)]) (hfresh : fresh ≠ "") (hnew : new ≠ "")
    (hunused : d.Unused fresh) :
    ∃ d' renamed, rename d fresh = .ok d' ∧ rename d' new = .ok renamed ∧
      rename d new = .ok renamed ∧ (new = old → renamed = d) := by
  have hback : ∀ renamed, rename d new = .ok renamed → new = old → renamed = d := by
    rintro renamed hok rfl
    rw [rename_same hcluster hnew] at hok
    exact (Except.ok.inj hok).symm
  by_cases hne : old = fresh
  · subst hne
    obtain ⟨k, -, hok⟩ := rename_to hd hcluster hnew
    exact ⟨d, _, rename_same hcluster hfresh, hok, hok, hback _ hok⟩
  · obtain ⟨h, hfirst, hmiddle⟩ := rename_to hd hcluster hfresh
    obtain ⟨hd', -⟩ := hd.rename hmiddle
    obtain ⟨k, hthen, hok⟩ := rename_to hd' rfl hnew
    obtain ⟨hsame, hboth⟩ := hd.withName_withName hne hunused hfirst hthen
    obtain ⟨k', honce, hdirect⟩ := rename_to hd hcluster hnew
    obtain rfl := honce.unique hboth
    rw [hsame] at hok
    exact ⟨_, _, hmiddle, hok, hdirect, hback _ hdirect⟩

theorem unused_twoContexts : twoContexts.Unused "c" where
  contexts := by decide
  fields := by
    intro e he v hv
    obtain rfl | rfl : e = (.str "a", .ref 1) ∨ e = (.str "b", .ref 2) := by
      simpa [twoContexts] using he
    all_goals
      cases hv
      decide
  current := by decide

/-- The second name is that of the other context, so that a context is lost on both ways. -/
theorem rename_by_way_of_taken :
    ∃ d' renamed, rename twoContexts "c" = .ok d' ∧ rename d' "b" = .ok renamed ∧
      rename twoContexts "b" = .ok renamed := by
  obtain ⟨d', renamed, hfirst, hthen, honce, -⟩ := rename_by_way_of wellFormed_twoContexts rfl
    (show "c" ≠ "" by decide) (show "b" ≠ "" by decide) unused_twoContexts
  exact ⟨d', renamed, hfirst, hthen, honce⟩

end Kubeconfig
end KubeAtlas
