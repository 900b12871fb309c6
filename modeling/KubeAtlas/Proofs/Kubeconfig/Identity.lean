import Mathlib
import KubeAtlas.Proofs.Kubeconfig.Reading
import KubeAtlas.Proofs.Kubeconfig.References
import KubeAtlas.Proofs.Yaml.Loaded
/-!
# What renaming leaves alone

Renaming is about one name. Users, the body of the cluster, what stands under other keys, and all
that a context says besides its cluster are meant to stay as they are. But a context is repointed in
its cell, and whatever else leads to that cell shows the new name from then on: written with an
alias, the body of a context may stand in a user, and the user changes with it. So the document is
left alone exactly if nothing that is meant to stay leads to a body that is repointed
(`Document.Spares`), and no body is lost because the new name is taken.

A context may lead to its own body without harm: below itself it shows a cut.
-/

namespace KubeAtlas

def Datum.withoutCluster : Datum → Datum
  | .map entries => .map (entries.filter fun e => e.1.key? ≠ some (Key.str "cluster"))
  | d => d

namespace Kubeconfig

def otherFields (es : Entries) : Entries :=
  es.filter fun e => Labelled.key e.1 ≠ Key.str "cluster"

/-- What renaming is meant to leave alone: users, other keys, the body of the cluster, and each
context under its own name or the new one, but for the cluster that it refers to. -/
structure TouchesIdentity (old new : String) (d d' : Document) : Prop where
  users : trees d'.graph d'.users = trees d.graph d.users
  extra : trees d'.graph d'.extra = trees d.graph d.extra
  keyOrder : d'.keyOrder = d.keyOrder
  cluster : d'.clusters.map (fun e => d'.graph.unfold e.2) =
    d.clusters.map fun e => d.graph.unfold e.2
  contexts : ∀ name v, (Label.str name, v) ∈ d.contexts →
    ∃ v', (Label.str (renamedTo old new name), v') ∈ d'.contexts ∧
      (d'.graph.unfold v').withoutCluster = (d.graph.unfold v).withoutCluster

/-- Nothing that is meant to stay leads to a body that is repointed. Of two contexts that get one
name, the bodies agree but for their clusters. -/
structure Document.Spares (d : Document) (old new : String) : Prop where
  users : ∀ e ∈ d.users, d.graph.Avoids (RefersFrom old d.contexts d.graph) [] e.2
  extra : ∀ e ∈ d.extra, d.graph.Avoids (RefersFrom old d.contexts d.graph) [] e.2
  cluster : ∀ e ∈ d.clusters, d.graph.Avoids (RefersFrom old d.contexts d.graph) [] e.2
  contexts : ∀ b ∈ bodyCells (renameKey (.str old) new d.contexts), ∀ es, d.graph.cell b = .map es →
    ∀ e ∈ otherFields es, d.graph.Avoids (RefersFrom old d.contexts d.graph) [b] e.2
  collision : ∀ v w, (Label.str old, v) ∈ d.contexts → (Label.str new, w) ∈ d.contexts →
    (d.graph.unfold v).withoutCluster = (d.graph.unfold w).withoutCluster

variable {g h : Graph} {old new : String} {es contexts : Entries} {v : Value}

/-! ### One body -/

theorem otherFields_repointed (old : Label) (new : String) (es : Entries) :
    otherFields (repointed old new es) = otherFields es := by
  rw [repointed]
  split
  · exact Table.filter_put (q := fun k => decide (k ≠ Key.str "cluster")) (by decide) _ _
  · rfl

theorem withoutCluster_unfoldCell (g : Graph) (depth : Nat) (above : List Nat) (es : Entries) :
    (g.unfoldCell depth above (.map es)).withoutCluster =
      .map (shownEntries g depth above (otherFields es)) := by
  have hkey : ∀ l : Label, l.datum.key? ≠ some (Key.str "cluster") ↔
      Labelled.key l ≠ Key.str "cluster" := by
    intro l
    rw [Label.key?_datum, ne_eq, Option.some.injEq]
    rfl
  rw [Graph.unfoldCell, Datum.withoutCluster, List.filter_map, shownEntries, otherFields]
  simp only [Function.comp_def, hkey]

theorem unfold_eq_iff (hne : old ≠ new) (hrep : Repoints (.str old) new contexts g h) (v : Value) :
    h.unfold v = g.unfold v ↔ g.Avoids (RefersFrom old contexts g) [] v := by
  rw [Graph.unfold, Graph.unfold, hrep.size]
  exact unfoldBelow_eq_iff hne hrep List.nodup_nil (List.forall_mem_nil _) rfl v

theorem trees_eq_iff (hne : old ≠ new) (hrep : Repoints (.str old) new contexts g h)
    (es : Entries) :
    trees h es = trees g es ↔ ∀ e ∈ es, g.Avoids (RefersFrom old contexts g) [] e.2 := by
  rw [trees, trees, List.map_inj_left]
  refine forall₂_congr fun e _ => ?_
  rw [Prod.mk.injEq, and_iff_right rfl, unfold_eq_iff hne hrep]

/-- The body of a context stays but for its cluster if its other fields lead to no body that is
repointed, other than to itself. -/
theorem withoutCluster_unfold_iff (hne : old ≠ new) (hrep : Repoints (.str old) new contexts g h)
    {b : Nat} (hb : b ∈ bodyCells contexts) (hcell : g.cell b = .map es) :
    (h.unfold (.ref b)).withoutCluster = (g.unfold (.ref b)).withoutCluster ↔
      ∀ e ∈ otherFields es, g.Avoids (RefersFrom old contexts g) [b] e.2 := by
  have hlt : b < g.cells.size := Graph.lt_size_of_cell hcell (by simp)
  rw [Graph.unfold, Graph.unfold, hrep.size, Graph.unfoldBelow_of_notMem h _ List.not_mem_nil,
    Graph.unfoldBelow_of_notMem g _ List.not_mem_nil, hrep.cell b, if_pos hb, hcell, repointedCell,
    withoutCluster_unfoldCell, withoutCluster_unfoldCell, otherFields_repointed, Datum.map.injEq,
    List.map_inj_left]
  refine forall₂_congr fun e _ => ?_
  rw [Prod.mk.injEq, and_iff_right rfl]
  exact unfoldBelow_eq_iff hne hrep (List.nodup_singleton b) (List.forall_mem_singleton.2 hlt) rfl
    e.2

/-! ### Names and bodies -/

/-- A body of a renamed table stood under a name that became the one it stands under now. -/
theorem origin_of_mem_renameKey (hnamed : ∀ e ∈ es, ∃ name, e.1 = .str name) {l : Label}
    (hmem : (l, v) ∈ renameKey (.str old) new es) :
    ∃ name, (Label.str name, v) ∈ es ∧ l.key = Key.str (renamedTo old new name) := by
  obtain ⟨l', hkey, hl'⟩ := Table.exists_of_mem_ofList hmem
  obtain ⟨⟨m, w⟩, he, hrelabel⟩ := List.mem_map.1 hl'
  obtain ⟨name, hname⟩ := hnamed _ he
  obtain rfl : m = .str name := hname
  have hstr := (relabel_str old new name w).symm.trans hrelabel
  obtain ⟨rfl, rfl⟩ := Prod.mk.inj hstr
  exact ⟨name, he, hkey.symm⟩

theorem exists_mem_renameKey (hnamed : ∀ e ∈ es, ∃ name, e.1 = .str name) {name : String}
    (hmem : (Label.str name, v) ∈ es) :
    ∃ v', (Label.str (renamedTo old new name), v') ∈ renameKey (.str old) new es := by
  have hkey : Key.str (renamedTo old new name) ∈
      (Table.keys (renameKey (.str old) new es) : List Key) := by
    refine mem_keys_renameKey.2 ⟨.str name, List.mem_map.2 ⟨_, hmem, rfl⟩, ?_⟩
    rw [renamedTo, apply_ite Key.str]
    simp
  obtain ⟨⟨l, v'⟩, hentry, hl⟩ := List.mem_map.1 hkey
  obtain ⟨name', hname'⟩ := named_renameKey hnamed (.str old) new _ hentry
  obtain rfl : l = .str name' := hname'
  obtain rfl : name' = renamedTo old new name := by
    simpa [Labelled.key, Label.key, Scalar.key] using hl
  exact ⟨v', hentry⟩

theorem renamedTo_eq_iff {name other : String} (hne : old ≠ new) :
    renamedTo old new name = renamedTo old new other ↔
      name = other ∨ name = old ∧ other = new ∨ name = new ∧ other = old := by
  rw [renamedTo, renamedTo]
  split <;> split <;> grind

theorem eq_of_mem_of_key (hnodup : (Table.keys es : List Key).Nodup) {l m : Label} {w : Value}
    (hv : (l, v) ∈ es) (hw : (m, w) ∈ es) (hkey : l.key = m.key) : v = w :=
  congrArg Prod.snd (List.inj_on_of_nodup_map hnodup hv hw hkey)

/-! ### The whole document -/

section Renamed

variable {d d' : Document} {body : Value}

theorem touchesIdentity_self (old : String) (d : Document) : TouchesIdentity old old d d where
  users := rfl
  extra := rfl
  keyOrder := rfl
  cluster := rfl
  contexts name v hv := ⟨v, by rw [renamedTo_self]; exact hv, rfl⟩

theorem withoutCluster_iff_of_mem (hd : d.WellFormed) (hne : old ≠ new)
    (hrep : Repoints (.str old) new d.contexts d.graph h) {name : String}
    (hv : (Label.str name, v) ∈ d.contexts) :
    (h.unfold v).withoutCluster = (d.graph.unfold v).withoutCluster ↔
      ∀ b, v = .ref b → ∀ es, d.graph.cell b = .map es → ∀ e ∈ otherFields es,
        d.graph.Avoids (RefersFrom old d.contexts d.graph) [b] e.2 := by
  obtain ⟨b, es, hb, hcell⟩ := hd.mappings .contexts _ hv
  obtain rfl : v = .ref b := hb
  rw [withoutCluster_unfold_iff hne hrep (mem_bodyCells_iff.2 ⟨_, hv⟩) hcell]
  constructor
  · intro hfields b' hb' es' hcell'
    obtain rfl := Value.ref.inj hb'
    obtain rfl := Cell.map.inj (hcell.symm.trans hcell')
    exact hfields
  · exact fun hall => hall b rfl es hcell

theorem contexts_spared (hd : d.WellFormed) (hne : old ≠ new)
    (hrep : Repoints (.str old) new d.contexts d.graph h) (hspares : d.Spares old new)
    {name : String} (hv : (Label.str name, v) ∈ d.contexts) :
    ∃ v', (Label.str (renamedTo old new name), v') ∈ renameKey (.str old) new d.contexts ∧
      (h.unfold v').withoutCluster = (d.graph.unfold v).withoutCluster := by
  have hnamed := hd.named .contexts
  have hdistinct := hd.distinct .contexts
  obtain ⟨v', hv'⟩ := exists_mem_renameKey hnamed hv
  obtain ⟨other, hother, hkey⟩ := origin_of_mem_renameKey hnamed hv'
  refine ⟨v', hv', ?_⟩
  have hstays : (h.unfold v').withoutCluster = (d.graph.unfold v').withoutCluster := by
    refine (withoutCluster_iff_of_mem hd hne hrep hother).2 ?_
    rintro b rfl es hcell
    exact hspares.contexts b (mem_bodyCells_iff.2 ⟨_, hv'⟩) es hcell
  have hnames : renamedTo old new name = renamedTo old new other := by
    simpa [Label.key, Scalar.key] using hkey
  -- the body is that of the context itself, or of the one that got the same name
  rw [hstays]
  rcases (renamedTo_eq_iff hne).1 hnames with rfl | ⟨rfl, rfl⟩ | ⟨rfl, rfl⟩
  · rw [eq_of_mem_of_key hdistinct hv hother rfl]
  · exact (hspares.collision v v' hv hother).symm
  · exact hspares.collision v' v hother hv

theorem touchesIdentity_withName_iff (hd : d.WellFormed)
    (hcluster : d.clusters = [(.str old, body)]) (hne : old ≠ new)
    (hrep : Repoints (.str old) new d.contexts d.graph h) :
    TouchesIdentity old new d (d.withName old new body h) ↔ d.Spares old new := by
  have hbody : (d.withName old new body h).clusters.map (fun e => h.unfold e.2) =
      d.clusters.map (fun e => d.graph.unfold e.2) ↔
      ∀ e ∈ d.clusters, d.graph.Avoids (RefersFrom old d.contexts d.graph) [] e.2 := by
    rw [hcluster, List.forall_mem_singleton, ← unfold_eq_iff hne hrep]
    exact List.singleton_inj
  have hnamed := hd.named .contexts
  constructor
  · intro htouches
    have hstays : ∀ name v, (Label.str name, v) ∈ d.contexts →
        ∀ v', (Label.str (renamedTo old new name), v') ∈ renameKey (.str old) new d.contexts →
        (h.unfold v').withoutCluster = (d.graph.unfold v).withoutCluster := by
      intro name v hv v' hv'
      obtain ⟨w, hw, hstays⟩ := htouches.contexts name v hv
      rw [eq_of_mem_of_key (Table.nodup_keys_ofList _) hv' hw rfl]
      exact hstays
    have hnames : ∀ name v, (Label.str name, v) ∈ d.contexts → ∃ v',
        (Label.str (renamedTo old new name), v') ∈ renameKey (.str old) new d.contexts :=
      fun name v hv => exists_mem_renameKey hnamed hv
    constructor
    case users => exact (trees_eq_iff hne hrep d.users).1 htouches.users
    case extra => exact (trees_eq_iff hne hrep d.extra).1 htouches.extra
    case cluster => exact hbody.1 htouches.cluster
    case contexts =>
      intro b hb es hcell
      obtain ⟨l, hl⟩ := mem_bodyCells_iff.1 hb
      obtain ⟨name, hname, hkey⟩ := origin_of_mem_renameKey hnamed hl
      obtain ⟨w, hw⟩ := hnames name _ hname
      obtain rfl := eq_of_mem_of_key (Table.nodup_keys_ofList _) hl hw hkey
      have hbody := hstays name _ hname _ hw
      exact (withoutCluster_iff_of_mem hd hne hrep hname).1 hbody b rfl es hcell
    case collision =>
      intro v w hv hw
      obtain ⟨v', hv'⟩ := hnames old v hv
      have hsame : renamedTo old new old = renamedTo old new new :=
        (renamedTo_eq_iff hne).2 (.inr (.inl ⟨rfl, rfl⟩))
      exact (hstays old v hv v' hv').symm.trans (hstays new w hw v' (hsame ▸ hv'))
  · intro hspares
    constructor
    case users => exact (trees_eq_iff hne hrep d.users).2 hspares.users
    case extra => exact (trees_eq_iff hne hrep d.extra).2 hspares.extra
    case keyOrder => rfl
    case cluster => exact hbody.2 hspares.cluster
    case contexts => exact fun name v hv => contexts_spared hd hne hrep hspares hv

/-- **Renaming touches only the identity** of a document that was read, if and only if nothing that
is meant to stay leads to a context that is repointed, and no context is lost to another one. -/
theorem rename_touches_identity_iff {bytes : List UInt8} (hparse : parse bytes = .ok d)
    (hrename : rename d new = .ok d') :
    d.clusters = [] ∧ d' = d ∨ ∃ old body, d.clusters = [(.str old, body)] ∧
      (TouchesIdentity old new d d' ↔ old = new ∨ d.Spares old new) := by
  have hd := (parse_eq_ok hparse).1
  obtain ⟨hnew, hone⟩ := (rename_eq_ok_iff hd).1 ⟨d', hrename⟩
  rcases hclusters : d.clusters with _ | ⟨⟨l, body⟩, _ | ⟨e, rest⟩⟩
  · obtain rfl := Except.ok.inj ((rename_of_no_cluster hclusters hnew).symm.trans hrename)
    exact .inl ⟨rfl, rfl⟩
  · obtain ⟨old, hold⟩ := hd.named .clusters (l, body) (by simp [Document.entries, hclusters])
    obtain rfl : l = .str old := hold
    refine .inr ⟨old, body, rfl, ?_⟩
    by_cases hne : old = new
    · subst hne
      obtain rfl := Except.ok.inj ((rename_same hclusters hnew).symm.trans hrename)
      exact iff_of_true (touchesIdentity_self old d) (.inl rfl)
    · obtain ⟨h, hrep, hok⟩ := rename_single hd hclusters hnew hne
      obtain rfl := Except.ok.inj (hok.symm.trans hrename)
      rw [or_iff_right hne]
      exact touchesIdentity_withName_iff hd hclusters hne hrep
  · rw [hclusters] at hone
    simp at hone

end Renamed

/-! ### A user by an alias -/

/-- A kubeconfig whose user is an alias, of the body of the cluster or of that of the context. -/
def aliased (anchor : String) : String :=
  "clusters:\n- name: a\n  cluster: &k\n    server: s\ncontexts:\n- name: a\n  context: &c\n" ++
    "    cluster: a\n    user: u\nusers:\n- name: u\n  user: *" ++ anchor ++ "\n"

def aliasedNodes (node : Nat) : Yaml.Document where
  nodes := #[⟨.map, .mapping [(1, 2), (10, 11), (21, 22)]⟩, ⟨.str, .scalar "clusters"⟩,
    ⟨.seq, .sequence [3]⟩, ⟨.map, .mapping [(4, 5), (6, 7)]⟩, ⟨.str, .scalar "name"⟩,
    ⟨.str, .scalar "a"⟩, ⟨.str, .scalar "cluster"⟩, ⟨.map, .mapping [(8, 9)]⟩,
    ⟨.str, .scalar "server"⟩, ⟨.str, .scalar "s"⟩, ⟨.str, .scalar "contexts"⟩,
    ⟨.seq, .sequence [12]⟩, ⟨.map, .mapping [(13, 14), (15, 16)]⟩, ⟨.str, .scalar "name"⟩,
    ⟨.str, .scalar "a"⟩, ⟨.str, .scalar "context"⟩, ⟨.map, .mapping [(17, 18), (19, 20)]⟩,
    ⟨.str, .scalar "cluster"⟩, ⟨.str, .scalar "a"⟩, ⟨.str, .scalar "user"⟩, ⟨.str, .scalar "u"⟩,
    ⟨.str, .scalar "users"⟩, ⟨.seq, .sequence [23]⟩, ⟨.map, .mapping [(24, 25), (26, node)]⟩,
    ⟨.str, .scalar "name"⟩, ⟨.str, .scalar "u"⟩, ⟨.str, .scalar "user"⟩]
  root := 0

def aliasedGraph (user : Nat) : Graph := ⟨#[
  .map [(.str "clusters", .ref 1), (.str "contexts", .ref 2), (.str "users", .ref 3)],
  .list [.ref 4],
  .list [.ref 5],
  .list [.ref 6],
  .map [(.str "name", .str "a"), (.str "cluster", .ref 7)],
  .map [(.str "name", .str "a"), (.str "context", .ref 8)],
  .map [(.str "name", .str "u"), (.str "user", .ref user)],
  .map [(.str "server", .str "s")],
  .map [(.str "cluster", .str "a"), (.str "user", .str "u")]]⟩

def aliasedDocument (user : Nat) : Document where
  graph := aliasedGraph user
  clusters := [(.str "a", .ref 7)]
  contexts := [(.str "a", .ref 8)]
  users := [(.str "u", .ref user)]
  currentContext := .null
  extra := []
  keyOrder := [.str "clusters", .str "contexts", .str "users"]

theorem load_aliased {anchor : String} {node user : Nat}
    (halias : (anchor, node, user) ∈ [("k", 7, 7), ("c", 16, 8)]) :
    Yaml.loadBytes (Text.Utf8.encode (aliased anchor).toList) =
      .ok (.ref 0, aliasedGraph user) := by
  have hnodes : ∀ a ∈ [("k", 7, 7), ("c", 16, 8)],
      Yaml.checkedBytes (Text.Utf8.encode (aliased a.1).toList) = .ok (aliased a.1).toList ∧
      Yaml.Document.read (Yaml.Event.read (Yaml.Token.read (aliased a.1).toList)) =
        .ok (some (aliasedNodes a.2.1)) := by decide +kernel
  obtain ⟨hchars, hread⟩ := hnodes _ halias
  rw [Yaml.loadBytes_of_nodes hchars hread]
  rcases List.mem_pair.1 halias with h | h <;> cases h <;> cbv

theorem parse_aliased {anchor : String} {node user : Nat}
    (halias : (anchor, node, user) ∈ [("k", 7, 7), ("c", 16, 8)]) :
    parse (Text.Utf8.encode (aliased anchor).toList) = .ok (aliasedDocument user) := by
  rw [parse_of_entries (load_aliased halias) rfl]
  rcases List.mem_pair.1 halias with h | h <;> cases h <;> cbv

theorem refersFrom_aliased {user c : Nat}
    (hc : RefersFrom "a" (aliasedDocument user).contexts (aliasedGraph user) c) : c = 8 := by
  simpa [bodyCells, aliasedDocument] using hc.1

theorem spares_aliased : (aliasedDocument 7).Spares "a" "b" := by
  have hserver : ∀ c, (aliasedGraph 7).Leads [] 7 c → c = 7 := by
    intro c hc
    rcases hc.step with rfl | ⟨b, hb, -⟩
    · rfl
    · simp [aliasedGraph, Graph.cell, Cell.values] at hb
  have havoids : (aliasedGraph 7).Avoids
      (RefersFrom "a" (aliasedDocument 7).contexts (aliasedGraph 7)) [] (.ref 7) := by
    intro a c ha hc hac
    obtain rfl := Value.ref.inj ha
    exact absurd ((hserver c hac).symm.trans (refersFrom_aliased hc)) (by decide)
  constructor
  case users => exact List.forall_mem_singleton.2 havoids
  case extra => exact List.forall_mem_nil _
  case cluster => exact List.forall_mem_singleton.2 havoids
  case contexts =>
    intro b hb es hes e he a c ha
    obtain rfl : b = 8 := List.mem_singleton.1 hb
    obtain rfl := Cell.map.inj hes
    obtain rfl := List.mem_singleton.1 he
    cases ha
  case collision =>
    intro v w _ hw
    simp [aliasedDocument] at hw

/-- The user shares the body of the cluster, which is no context. -/
theorem rename_touches_identity_shared :
    ∃ d d', parse (Text.Utf8.encode (aliased "k").toList) = .ok d ∧ rename d "b" = .ok d' ∧
      TouchesIdentity "a" "b" d d' := by
  have hparse : parse (Text.Utf8.encode (aliased "k").toList) = .ok (aliasedDocument 7) :=
    parse_aliased List.mem_cons_self
  obtain ⟨d', hrename⟩ := (rename_eq_ok_iff (parse_eq_ok hparse).1).2
    ⟨show "b" ≠ "" by decide, Nat.le_refl 1⟩
  refine ⟨_, d', hparse, hrename, ?_⟩
  obtain ⟨hnone, -⟩ | ⟨old, body, hcluster, htouches⟩ :=
    rename_touches_identity_iff hparse hrename
  · cases hnone
  · cases hcluster
    exact htouches.2 (.inr spares_aliased)

/-- A user that shares the body of a context is changed. -/
theorem rename_touches_user :
    ¬ ∀ (bytes : List UInt8) (d d' : Document) (old new : String) (body : Value),
      parse bytes = .ok d → rename d new = .ok d' → d.clusters = [(.str old, body)] →
        TouchesIdentity old new d d' := by
  intro hall
  have hparse : parse (Text.Utf8.encode (aliased "c").toList) = .ok (aliasedDocument 8) :=
    parse_aliased (List.mem_cons_of_mem _ List.mem_cons_self)
  have hd := (parse_eq_ok hparse).1
  obtain ⟨h, hrep, hok⟩ := rename_single hd rfl (show "b" ≠ "" by decide) (by decide)
  have htouches := hall _ _ _ "a" "b" (.ref 7) hparse hok rfl
  have hspares := (touchesIdentity_withName_iff hd rfl (by decide) hrep).1 htouches
  refine hspares.users (.str "u", .ref 8) (by simp [aliasedDocument]) 8 8 rfl ?_
    (.here List.not_mem_nil)
  exact ⟨by simp [bodyCells, aliasedDocument], _, rfl, by decide⟩

end Kubeconfig
end KubeAtlas
