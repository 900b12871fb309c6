import KubeAtlas.Proofs.Kubeconfig.Form
/-!
# What renaming writes

Renaming goes through the contexts and changes the graph as it goes. Two contexts may share a body,
so that a body may be met again after it was changed; but a body that was made to refer to the new
name no longer refers to the old one, and meeting it again changes nothing. `Repoints` is what the
walk as a whole does: the bodies of contexts are repointed, each as it was before, and all other
cells stay.
-/

namespace KubeAtlas

namespace Kubeconfig

def refersTo (old : Label) (es : Entries) : Bool := ((field? es "cluster").getD .null).is old

def repointed (old : Label) (new : String) (es : Entries) : Entries :=
  if refersTo old es then Table.put (Label.str "cluster") (.str new) es else es

def repointedCell (old : Label) (new : String) : Cell → Cell
  | .map es => .map (repointed old new es)
  | c => c

variable {old : Label} {new : String} {g h : Graph} {es : Entries} {id : Nat}

theorem refersTo_repointed (hne : old.key ≠ .str new) :
    refersTo old (repointed old new es) = false := by
  rw [repointed]
  split
  · rw [refersTo, field?, Table.find?_put]
    simpa [Value.is, Value.key?, Labelled.key, Label.key, Scalar.key] using Ne.symm hne
  · next hnot => simpa using hnot

theorem repointedCell_idem (hne : old.key ≠ .str new) (c : Cell) :
    repointedCell old new (repointedCell old new c) = repointedCell old new c := by
  cases c with
  | map es =>
      rw [repointedCell, repointedCell, repointed.eq_def _ _ (repointed old new es),
        refersTo_repointed hne]
      rfl
  | _ => rfl

theorem repoint_eq_ok (hcell : g.cell id = .map es) :
    repoint old new g (.ref id) = .ok (g.set id (repointedCell old new (g.cell id))) := by
  have hes : g.entries? (.ref id) = some es := Graph.entries?_eq_some_iff.2 ⟨id, rfl, hcell⟩
  have hstay : g.set id (.map es) = g := hcell ▸ Graph.set_cell_self g id
  cases hfield : field? es "cluster" with
  | some v =>
      have hrefers : refersTo old es = v.is old := by rw [refersTo, hfield]; rfl
      simp only [repoint, hes, hfield, hcell, repointedCell, repointed, hrefers]
      split
      · rfl
      · rw [hstay]; rfl
  | none =>
      have hrefers : refersTo old es = true ↔ old.key = .atom .null := by
        rw [refersTo, hfield, Option.getD_none, Value.is, Value.key?, decide_eq_true_eq,
          Option.some.injEq]
        exact eq_comm
      simp only [repoint, hes, hfield, hcell, repointedCell, repointed, hrefers]
      split
      · rfl
      · rw [hstay]; rfl

/-! ### The walk through the contexts -/

def bodyCells (es : Entries) : List Nat :=
  es.filterMap fun e => match e.2 with
    | .ref id => some id
    | .leaf _ => none

theorem bodyCells_cons {e : Label × Value} (he : e.2 = .ref id) (es : Entries) :
    bodyCells (e :: es) = id :: bodyCells es := by
  rw [bodyCells, List.filterMap_cons, he]
  rfl

/-- What repointing the bodies of some contexts makes of a graph. -/
structure Repoints (old : Label) (new : String) (contexts : Entries) (g h : Graph) : Prop where
  size : h.cells.size = g.cells.size
  cell : ∀ id, h.cell id =
    if id ∈ bodyCells contexts then repointedCell old new (g.cell id) else g.cell id

theorem foldlM_repoint {contexts : Entries} (hne : old.key ≠ .str new)
    (hbodies : ∀ e ∈ contexts, g.IsMapping e.2) :
    ∃ h, contexts.foldlM (fun g e => repoint old new g e.2) g = .ok h ∧
      Repoints old new contexts g h := by
  induction contexts generalizing g with
  | nil => exact ⟨g, rfl, rfl, fun _ => rfl⟩
  | cons e rest ih =>
      obtain ⟨⟨id, es, hid, hcell⟩, hrest⟩ := List.forall_mem_cons.1 hbodies
      have hself := Graph.cell_set_self g id (repointedCell old new (g.cell id))
        (Graph.lt_size_of_cell hcell (by simp))
      obtain ⟨h, hfold, hsize, hcells⟩ :=
        ih (g := g.set id (repointedCell old new (g.cell id))) fun e he => by
          rw [hcell, repointedCell]
          exact (hrest e he).set id _
      refine ⟨h, ?_, by rw [hsize, Graph.size_set], fun other => ?_⟩
      · rw [List.foldlM_cons, hid, repoint_eq_ok hcell]
        exact hfold
      · simp only [hcells, bodyCells_cons hid, List.mem_cons]
        by_cases hother : other = id
        · subst hother
          -- The body is repointed already, and stays as it is if it stands again among the rest.
          rw [hself, repointedCell_idem hne, ite_self, if_pos (.inl rfl)]
        · simp only [Graph.cell_set_of_ne g id other _ (Ne.symm hother), hother, false_or]

theorem Repoints.isMapping {contexts : Entries} {v : Value} (hrep : Repoints old new contexts g h)
    (hv : g.IsMapping v) : h.IsMapping v := by
  obtain ⟨id, es, rfl, hcell⟩ := hv
  have hmap := hrep.cell id
  rw [hcell] at hmap
  split at hmap
  · exact ⟨id, _, rfl, hmap⟩
  · exact ⟨id, es, rfl, hmap⟩

theorem Repoints.labels {contexts : Entries} (hrep : Repoints old new contexts g h)
    {P : Label → Prop} (htext : ∀ s, P (.str s)) (hg : g.All P) : h.All P := by
  intro id
  have hcell := hg id
  rw [hrep.cell id]
  split
  · cases hc : g.cell id with
    | map es =>
        rw [hc] at hcell
        rw [repointedCell, repointed]
        split
        · exact Entries.All.put hcell (htext _) (htext _)
        · exact hcell
    | _ => rwa [hc] at hcell
  · exact hcell

/-! ### The renamed document -/

variable {d d' : Document} {f : Failure} {o : String} {body : Value}

/-- The document with a new name for its cluster, on a graph whose contexts are repointed. -/
def Document.withName (d : Document) (o new : String) (body : Value) (h : Graph) : Document :=
  { d with
    graph := h
    clusters := [(.str new, body)]
    contexts := renameKey (.str o) new d.contexts
    currentContext := if d.currentContext.is (.str o) then .str new else d.currentContext }

theorem rename_of_no_cluster (hnone : d.clusters = []) (hnew : new ≠ "") :
    rename d new = .ok d := by
  rw [rename, if_neg (by simpa using hnew)]
  simp [hnone, pure_eq_ok]

theorem rename_same (hcluster : d.clusters = [(.str new, body)]) (hnew : new ≠ "") :
    rename d new = .ok d := by
  rw [rename, if_neg (by simpa using hnew)]
  simp [hcluster, Label.key, Scalar.key, pure, Except.pure]

theorem rename_single (hd : d.WellFormed) (hcluster : d.clusters = [(.str o, body)])
    (hnew : new ≠ "") (hne : o ≠ new) :
    ∃ h, Repoints (.str o) new d.contexts d.graph h ∧
      rename d new = .ok (d.withName o new body h) := by
  have hkey : (Label.str o).key ≠ .str new := by simpa [Label.key, Scalar.key] using hne
  obtain ⟨h, hfold, hrep⟩ := foldlM_repoint hkey (hd.mappings .contexts)
  refine ⟨h, hrep, ?_⟩
  rw [rename, if_neg (by simpa using hnew)]
  simp only [hcluster, if_neg hkey]
  exact bind_eq_ok_iff.2 ⟨h, hfold, rfl⟩

theorem sortedNames?_isSome {es : Entries} (hes : ∀ e ∈ es, ∃ name, e.1 = .str name) :
    (sortedNames? es).isSome := by
  suffices hmap : (es.mapM fun e : Label × Value => e.1.str?).isSome by
    rw [sortedNames?, Option.isSome_map]
    exact hmap
  induction es with
  | nil => rfl
  | cons e rest ih =>
      obtain ⟨⟨name, hname⟩, hrest⟩ := List.forall_mem_cons.1 hes
      obtain ⟨names, hnames⟩ := Option.isSome_iff_exists.1 (ih hrest)
      have hfirst : e.1.str? = some name := by rw [hname]; rfl
      simp [List.mapM_cons, hfirst, hnames]

theorem rename_of_several (hd : d.WellFormed) {c e : Label × Value} {rest : Entries}
    (hclusters : d.clusters = c :: e :: rest) (hnew : new ≠ "") :
    ∃ names, rename d new = .error (.format (.severalClusters names)) := by
  obtain ⟨names, hnames⟩ := Option.isSome_iff_exists.1 (sortedNames?_isSome (hd.named .clusters))
  rw [Document.entries, hclusters] at hnames
  refine ⟨names, ?_⟩
  rw [rename, if_neg (by simpa using hnew)]
  simp only [hclusters, hnames]
  rfl

/-- A well-formed document is refused for its form, stays as it is, or is renamed. -/
theorem rename_cases (hd : d.WellFormed) (new : String) :
    (∃ e, rename d new = .error (.format e)) ∨ rename d new = .ok d ∨
      ∃ o body h, d.clusters = [(.str o, body)] ∧ Repoints (.str o) new d.contexts d.graph h ∧
        rename d new = .ok (d.withName o new body h) := by
  by_cases hnew : new = ""
  · exact .inl ⟨.emptyName, by rw [rename, if_pos (by simpa using hnew)]; rfl⟩
  · rcases hclusters : d.clusters with _ | ⟨⟨l, body⟩, _ | ⟨e, rest⟩⟩
    · exact .inr (.inl (rename_of_no_cluster hclusters hnew))
    · obtain ⟨o, ho⟩ := hd.named .clusters (l, body) (by simp [Document.entries, hclusters])
      obtain rfl : l = .str o := ho
      by_cases hne : o = new
      · exact .inr (.inl (rename_same (hne ▸ hclusters) hnew))
      · obtain ⟨h, hrep, hok⟩ := rename_single hd hclusters hnew hne
        exact .inr (.inr ⟨o, body, h, rfl, hrep, hok⟩)
    · obtain ⟨names, hnames⟩ := rename_of_several hd hclusters hnew
      exact .inl ⟨.severalClusters names, hnames⟩

theorem rename_ok_cases (hd : d.WellFormed) (hrename : rename d new = .ok d') :
    d' = d ∨ ∃ o body h, d.clusters = [(.str o, body)] ∧
      Repoints (.str o) new d.contexts d.graph h ∧ d' = d.withName o new body h := by
  rcases rename_cases hd new with ⟨e, herror⟩ | hsame | ⟨o, body, h, hcluster, hrep, hok⟩
  · rw [herror] at hrename
    cases hrename
  · exact .inl (Except.ok.inj (hrename.symm.trans hsame))
  · exact .inr ⟨o, body, h, hcluster, hrep, Except.ok.inj (hrename.symm.trans hok)⟩

theorem rename_eq_ok_iff (hd : d.WellFormed) :
    (∃ d', rename d new = .ok d') ↔ new ≠ "" ∧ d.clusters.length ≤ 1 := by
  by_cases hnew : new = ""
  · subst hnew
    have herror : rename d "" = .error (.format .emptyName) := rfl
    simp [herror]
  · rcases hclusters : d.clusters with _ | ⟨⟨l, body⟩, _ | ⟨e, rest⟩⟩
    · simp [rename_of_no_cluster hclusters hnew, hnew]
    · obtain ⟨o, ho⟩ := hd.named .clusters (l, body) (by simp [Document.entries, hclusters])
      obtain rfl : l = .str o := ho
      refine iff_of_true ?_ ⟨hnew, Nat.le_refl 1⟩
      by_cases hne : o = new
      · exact ⟨d, rename_same (hne ▸ hclusters) hnew⟩
      · obtain ⟨h, -, hok⟩ := rename_single hd hclusters hnew hne
        exact ⟨_, hok⟩
    · obtain ⟨names, herror⟩ := rename_of_several hd hclusters hnew
      simp [herror]

theorem rename_eq_error (hd : d.WellFormed) (hrename : rename d new = .error f) :
    ∃ e, f = .format e := by
  rcases rename_cases hd new with ⟨e, herror⟩ | hsame | ⟨o, body, h, -, -, hok⟩
  · exact ⟨e, Except.error.inj (hrename.symm.trans herror)⟩
  · rw [hsame] at hrename
    cases hrename
  · rw [hok] at hrename
    cases hrename

theorem named_renameKey {es : Entries} (hes : ∀ e ∈ es, ∃ name, e.1 = .str name) (old : Label)
    (new : String) : ∀ e ∈ renameKey old new es, ∃ name, e.1 = .str name := by
  intro e he
  obtain ⟨⟨w, hw⟩, -⟩ := Table.mem_ofList he
  obtain ⟨e', he', hsame⟩ := List.mem_map.1 hw
  split at hsame
  · exact ⟨new, (Prod.mk.inj hsame).1.symm⟩
  · obtain ⟨name, hname⟩ := hes e' he'
    exact ⟨name, (congrArg Prod.fst hsame).symm.trans hname⟩

theorem exists_of_mem_renameKey {es : Entries} {e : Label × Value}
    (he : e ∈ renameKey old new es) : ∃ l, (l, e.2) ∈ es := by
  obtain ⟨-, l, hl⟩ := Table.mem_ofList he
  obtain ⟨e', he', hsame⟩ := List.mem_map.1 hl
  split at hsame
  · obtain ⟨-, hbody⟩ := Prod.mk.inj hsame
    exact ⟨e'.1, hbody ▸ he'⟩
  · exact ⟨l, hsame ▸ he'⟩

theorem Document.WellFormed.rename (hd : d.WellFormed) (hrename : rename d new = .ok d') :
    d'.WellFormed ∧ ∀ P : Label → Prop, (∀ s, P (.str s)) → d.All P → d'.All P := by
  obtain rfl | ⟨o, body, h, hcluster, hrep, rfl⟩ := rename_ok_cases hd hrename
  · exact ⟨hd, fun _ _ hall => hall⟩
  · constructor
    · constructor
      case named =>
        rintro (_ | _ | _)
        · simp [Document.entries, withName]
        · exact named_renameKey (hd.named .contexts) _ _
        · exact hd.named .users
      case distinct =>
        rintro (_ | _ | _)
        · exact List.nodup_cons.2 ⟨List.not_mem_nil, List.nodup_nil⟩
        · exact Table.nodup_keys_ofList _
        · exact hd.distinct .users
      case mappings =>
        rintro (_ | _ | _) e he
        · obtain rfl := List.mem_singleton.1 he
          exact hrep.isMapping (hd.mappings .clusters (.str o, body)
            (by simp [Document.entries, hcluster]))
        · obtain ⟨l, hl⟩ := exists_of_mem_renameKey he
          exact hrep.isMapping (hd.mappings .contexts (l, e.2) hl)
        · exact hrep.isMapping (hd.mappings .users _ he)
      case current =>
        rw [withName]
        split
        · exact .inr ⟨new, rfl⟩
        · exact hd.current
      case labels => exact hd.labels
    · exact fun P htext hall => ⟨hrep.labels htext hall.graph, hall.extra, hall.keys⟩

end Kubeconfig
end KubeAtlas
