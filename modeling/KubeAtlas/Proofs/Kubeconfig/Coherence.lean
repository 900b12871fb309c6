import Mathlib
import KubeAtlas.Proofs.Kubeconfig.Entries
import KubeAtlas.Proofs.Kubeconfig.Found
import KubeAtlas.Proofs.Kubeconfig.Reading
import KubeAtlas.Proofs.Kubeconfig.References
/-!
# References from the mapping that is read to the one that is built

A kubeconfig for one cluster is coherent if every context refers to that cluster and a context is in
use. Its names and references can be values of any kind, which compare equal or not as such. Reading
takes the names for texts, and the name of the context in use as well, but leaves the references
inside contexts as they are; and renaming looks for references that are the text. So a reference to
a cluster called `1` is not found, and a context in use may be spelt differently from its name. In
all other cases what is built is as coherent as what was read (`references_survive_iff`).
-/

namespace KubeAtlas

namespace Kubeconfig

def Part.listed (p : Part) (g : Graph) (top : Entries) : List Value :=
  ((field? top p.key).bind g.items?).getD []

def clusterOf? (g : Graph) (item : Value) : Option Value :=
  (contextField? g item "context").bind fun body => contextField? g body "cluster"

/-- A mapping for one cluster, which all contexts refer to, and with a context in use. -/
structure Coherent (g : Graph) (top : Entries) (name : Label) : Prop where
  cluster : ∃ item, Part.clusters.listed g top = [item] ∧
    contextField? g item "name" = some (.leaf name)
  contexts : ∀ item ∈ Part.contexts.listed g top, ∃ l, clusterOf? g item = some (.leaf l) ∧
    l.key = name.key
  current : ∃ l, field? top currentContextKey = some (.leaf l) ∧
    ∃ item ∈ Part.contexts.listed g top, ∃ m, contextField? g item "name" = some (.leaf m) ∧
      m.key = l.key

variable {g h k : Graph} {v item : Value} {raw es : Entries} {name : Label} {new : String}

theorem contextField?_of_extends (hext : h.Extends g) {field : String} {w : Value}
    (hfield : contextField? g v field = some w) : contextField? h v field = some w := by
  obtain ⟨es, hes, hw⟩ := Option.bind_eq_some_iff.1 hfield
  exact Option.bind_eq_some_iff.2 ⟨es, hext.entries? hes, hw⟩

/-! ### Reading -/

namespace Part

variable {p : Part}

theorem exists_list (hne : p.listed g raw ≠ []) :
    ∃ list, field? raw p.key = some list ∧ g.items? list = some (p.listed g raw) := by
  rw [listed] at hne ⊢
  cases hlist : (field? raw p.key).bind g.items? with
  | none => exact absurd (by rw [hlist]; rfl) hne
  | some items =>
      obtain ⟨list, hfield, hitems⟩ := Option.bind_eq_some_iff.1 hlist
      exact ⟨list, hfield, hitems⟩

/-- A part with items is the table of what its items are read as, one after the other. -/
theorem readEntries_of_listed {d : Document} (hread : Document.ofMapping g raw = .ok d)
    (hne : p.listed g raw ≠ []) :
    ∃ h k es, h.Extends g ∧ d.graph.Extends k ∧ p.readEntries h (p.listed g raw) = .ok (es, k) ∧
      d.entries p = Table.ofList es := by
  obtain ⟨h, k, hext, hpart, hgraph⟩ := Document.ofMapping_part hread p
  obtain ⟨list, hfield, hitems⟩ := exists_list hne
  rw [read_of_items hfield (hext.items? hitems) hne] at hpart
  obtain ⟨⟨es, k'⟩, hentries, hpart⟩ := bind_eq_ok_iff.1 hpart
  obtain ⟨htable, rfl⟩ := Prod.mk.inj (Except.ok.inj hpart)
  exact ⟨h, k', es, hext, hgraph, hentries, htable.symm⟩

theorem names_of_listed {d : Document} (hg : g.Closed) (hread : Document.ofMapping g raw = .ok d)
    (hne : p.listed g raw ≠ []) :
    (∀ item ∈ p.listed g raw, (entryName? g item).isSome) ∧
      ∀ key : Key, key ∈ (Table.keys (d.entries p) : List Key) ↔
        ∃ item ∈ p.listed g raw, ∃ t, entryName? g item = some t ∧ key = .str t := by
  obtain ⟨list, -, hitems⟩ := exists_list hne
  obtain ⟨h, k, es, hext, -, hentries, htable⟩ := readEntries_of_listed hread hne
  obtain ⟨names, hnames, hlabels⟩ :=
    names_of_readEntries hg hext (fun v hv => hg.items hitems hv) hentries
  have hkeys : (Table.keys es : List Key) = names.map Key.str := by
    have hmap := congrArg (List.map Label.key) hlabels
    rwa [List.map_map, List.map_map] at hmap
  constructor
  · intro item hitem
    have hmem : entryName? g item ∈ names.map some := hnames ▸ List.mem_map_of_mem hitem
    obtain ⟨t, -, ht⟩ := List.mem_map.1 hmem
    rw [← ht]
    rfl
  · intro key
    rw [htable, Table.mem_keys_ofList, hkeys, List.mem_map]
    constructor
    · rintro ⟨t, ht, rfl⟩
      have hmem : some t ∈ (p.listed g raw).map (entryName? g) :=
        hnames ▸ List.mem_map_of_mem ht
      obtain ⟨item, hitem, hname⟩ := List.mem_map.1 hmem
      exact ⟨item, hitem, t, hname, rfl⟩
    · rintro ⟨item, hitem, t, hname, rfl⟩
      have hmem : some t ∈ names.map some := hnames ▸ hname ▸ List.mem_map_of_mem hitem
      obtain ⟨t', ht', hsame⟩ := List.mem_map.1 hmem
      exact ⟨t', ht', congrArg Key.str (Option.some.inj hsame)⟩

theorem body_of_readEntry {e : Label × Value} {body w : Value} {field : String}
    (hread : p.readEntry h item = .ok (e, k)) (hbody : contextField? h item p.bodyKey = some body)
    (hfield : contextField? h body field = some w) : e.2 = body := by
  obtain ⟨fields, hfields, hbody⟩ := Option.bind_eq_some_iff.1 hbody
  obtain ⟨inner, hinner, hw⟩ := Option.bind_eq_some_iff.1 hfield
  obtain ⟨id, rfl, hcell⟩ := Graph.entries?_eq_some_iff.1 hinner
  have htruthy : h.isTruthy (.ref id) = true := by
    rw [Graph.isTruthy, hcell, Cell.isEmpty]
    cases inner with
    | nil => cases hw
    | cons e rest => rfl
  have hpresent : present? h fields p.bodyKey = some (.ref id) := by
    rw [present?, hbody, Option.filter_some, if_pos htruthy]
  rw [readEntry, hfields, Option.bind_some] at hread
  cases hname : present? h fields "name" with
  | none =>
      rw [hname] at hread
      cases hread
  | some n =>
      rw [hname] at hread
      obtain ⟨d, -, hread⟩ := bind_eq_ok_iff.1 hread
      simp only [hpresent, hinner, Option.isSome_some, if_true] at hread
      cases hread
      rfl

theorem bodies_of_readEntries {items : List Value} (hext : h.Extends g)
    (hitems : ∀ item ∈ items, ∃ l, clusterOf? g item = some (.leaf l) ∧ l.key = name.key)
    (hread : Part.contexts.readEntries h items = .ok (es, k)) :
    ∀ e ∈ es, ∃ l, contextField? g e.2 "cluster" = some (.leaf l) ∧ l.key = name.key := by
  induction items generalizing h es with
  | nil =>
      cases hread
      exact List.forall_mem_nil _
  | cons item rest ih =>
      obtain ⟨⟨l, hcluster, hl⟩, hrest⟩ := List.forall_mem_cons.1 hitems
      rw [readEntries] at hread
      obtain ⟨⟨e, h'⟩, hentry, hread⟩ := bind_eq_ok_iff.1 hread
      obtain ⟨⟨fs, k'⟩, hlater, hread⟩ := bind_eq_ok_iff.1 hread
      cases hread
      obtain ⟨body, hbody, hfield⟩ := Option.bind_eq_some_iff.1 hcluster
      have hkept : e.2 = body := body_of_readEntry hentry (contextField?_of_extends hext hbody)
        (contextField?_of_extends hext hfield)
      refine List.forall_mem_cons.2 ⟨⟨l, hkept ▸ hfield, hl⟩, ?_⟩
      exact ih ((readEntry_eq_ok hentry).extended.trans hext) hrest hlater

end Part

theorem entryName?_of_leaf {l : Label} (hname : contextField? g item "name" = some (.leaf l)) :
    entryName? g item = if l.isTruthy then some l.text else none := by
  obtain ⟨fields, hfields, hl⟩ := Option.bind_eq_some_iff.1 hname
  have htext : g.text (.leaf l) = l.text := by
    rw [Graph.text, Graph.unfold, Graph.unfoldBelow]
    rfl
  rw [entryName?, hfields, Option.bind_some, present?, hl, Option.filter_some]
  cases htruthy : l.isTruthy with
  | true => rw [Graph.isTruthy, htruthy, if_pos rfl, if_pos rfl, Option.map_some, htext]
  | false => rw [Graph.isTruthy, htruthy]; rfl

/-- A document for one cluster, to which its contexts refer under this name, and the name of the
context in use. -/
structure Document.RefersTo (d : Document) (name : Label) (current : String) : Prop where
  cluster : ∃ body, d.clusters = [(.str name.text, body)]
  contexts : ∀ e ∈ d.contexts, ∃ l, contextField? d.graph e.2 "cluster" = some (.leaf l) ∧
    l.key = name.key
  inUse : d.currentContext = .str current
  named : current ≠ ""

variable {d d' : Document} {l : Label}

theorem Coherent.listed_ne_nil (hcoherent : Coherent g raw name) :
    Part.clusters.listed g raw ≠ [] ∧ Part.contexts.listed g raw ≠ [] := by
  obtain ⟨item, hitem, -⟩ := hcoherent.cluster
  obtain ⟨l, -, other, hother, -⟩ := hcoherent.current
  exact ⟨by simp [hitem], List.ne_nil_of_mem hother⟩

theorem Coherent.refersTo (hg : g.Closed) (hcoherent : Coherent g raw name)
    (hcurrent : field? raw currentContextKey = some (.leaf l))
    (hread : Document.ofMapping g raw = .ok d) : d.RefersTo name l.text := by
  obtain ⟨hclusters, hcontexts⟩ := hcoherent.listed_ne_nil
  have hd := (Document.ofMapping_eq_ok hread).1
  have htruthy : l.isTruthy = true := by
    obtain ⟨w, hw, item, hitem, m, hm, hkey⟩ := hcoherent.current
    obtain rfl := Value.leaf.inj (Option.some.inj (hcurrent.symm.trans hw))
    have hsome := (Part.names_of_listed hg hread hcontexts).1 item hitem
    rw [entryName?_of_leaf hm, ← m.isTruthy_key, hkey, l.isTruthy_key] at hsome
    by_contra hfalsy
    rw [if_neg hfalsy] at hsome
    cases hsome
  constructor
  case cluster =>
    obtain ⟨item, hitem, hname⟩ := hcoherent.cluster
    obtain ⟨hsome, hkeys⟩ := Part.names_of_listed hg hread hclusters
    obtain ⟨h, k, es, -, -, hentries, htable⟩ := Part.readEntries_of_listed hread hclusters
    rw [hitem, Part.readEntries] at hentries
    obtain ⟨⟨e, h'⟩, -, hentries⟩ := bind_eq_ok_iff.1 hentries
    obtain ⟨rfl, -⟩ := Prod.mk.inj (Except.ok.inj hentries)
    have htable' : d.clusters = [e] := htable
    obtain ⟨other, hother, t, ht, hkey⟩ := (hkeys (Labelled.key e.1)).1 (by
      rw [Document.entries, htable']
      exact List.mem_singleton_self _)
    rw [hitem, List.mem_singleton] at hother
    subst hother
    rw [entryName?_of_leaf hname, Option.ite_none_right_eq_some, Option.some.injEq] at ht
    obtain ⟨-, rfl⟩ := ht
    rw [htable']
    exact ⟨e.2, congrArg (fun m => [(m, e.2)]) (Label.eq_str_of_key hkey)⟩
  case contexts =>
    obtain ⟨h, k, es, hext, hgraph, hentries, htable⟩ := Part.readEntries_of_listed hread hcontexts
    intro e he
    have hmem : e ∈ Table.ofList es := htable ▸ he
    obtain ⟨-, m, hm⟩ := Table.mem_ofList hmem
    obtain ⟨w, hw, hkey⟩ := Part.bodies_of_readEntries hext hcoherent.contexts hentries _ hm
    exact ⟨w, contextField?_of_extends (Document.ofMapping_extends hread) hw, hkey⟩
  case inUse =>
    have hpresent : present? d.graph raw currentContextKey = some (.leaf l) := by
      rw [present?, hcurrent, Option.filter_some, Graph.isTruthy, htruthy, if_pos rfl]
    obtain ⟨-, -, -, -, -, hheld, -⟩ := Document.ofMapping_parts hread
    rcases hheld with ⟨hnone, -⟩ | ⟨v, hv, hname⟩
    · rw [hpresent] at hnone
      cases hnone
    · obtain rfl := Option.some.inj (hpresent.symm.trans hv)
      rw [hname, Graph.unfold, Graph.unfoldBelow]
      rfl
  case named =>
    have htext := Graph.text_ne_empty (g := g) (v := .leaf l) htruthy
    rwa [Graph.unfold, Graph.unfoldBelow] at htext

/-! ### Renaming -/

theorem keys_of_renamed_self (old : String) (es : Entries) (key : Key) :
    key ∈ (Table.keys es : List Key) ↔
      ∃ l ∈ (Table.keys es : List Key), (if l = .str old then .str old else l) = key := by
  have hself : ∀ l : Key, (if l = .str old then Key.str old else l) = l := by
    intro l
    split
    · next hl => exact hl.symm
    · rfl
  simp [hself]

/-- A renamed document has the new name where it had the old one. Its contexts refer to the cluster
by the new name exactly if they did so by a text before. -/
theorem Document.RefersTo.rename {current : String} (hd : d.WellFormed)
    (hrefers : d.RefersTo name current) (hnew : new ≠ "") :
    ∃ d' body, Kubeconfig.rename d new = .ok d' ∧ d'.clusters = [(.str new, body)] ∧
      d'.currentContext = .str (renamedTo name.text new current) ∧
      (∀ key : Key, key ∈ (Table.keys d'.contexts : List Key) ↔
        ∃ l ∈ (Table.keys d.contexts : List Key),
          (if l = .str name.text then .str new else l) = key) ∧
      ∀ e ∈ d'.contexts, (∃ l, contextField? d'.graph e.2 "cluster" = some (.leaf l) ∧
        l.key = Key.str new) ↔ ∃ s, name = .str s := by
  obtain ⟨body, hcluster⟩ := hrefers.cluster
  have hname : ∀ {s : String}, name.key = .str s → name.text = s := by
    intro s hs
    rw [Label.eq_str_of_key hs]
    rfl
  by_cases hne : name.text = new
  · subst hne
    refine ⟨d, body, rename_same hcluster hnew, hcluster, ?_, keys_of_renamed_self _ _, ?_⟩
    · rw [renamedTo_self, hrefers.inUse]
    · intro e he
      obtain ⟨l, hl, hkey⟩ := hrefers.contexts e he
      constructor
      · rintro ⟨m, hm, hstr⟩
        obtain rfl := Value.leaf.inj (Option.some.inj (hl.symm.trans hm))
        exact ⟨_, Label.eq_str_of_key (hkey.symm.trans hstr)⟩
      · rintro ⟨s, rfl⟩
        exact ⟨l, hl, hkey⟩
  · obtain ⟨h, hrep, hok⟩ := rename_single hd hcluster hnew hne
    refine ⟨_, body, hok, rfl, ?_, fun key => mem_keys_renameKey, ?_⟩
    · rw [Document.withName, hrefers.inUse, renamedTo, apply_ite Value.str]
      simp [Value.is, Value.key?, Label.key, Scalar.key]
    · intro e he
      obtain ⟨m, hm⟩ := exists_of_mem_renameKey he
      obtain ⟨l, hl, hkey⟩ := hrefers.contexts _ hm
      have his : (Value.leaf l).is (.str name.text) = true ↔ name.key = .str name.text := by
        rw [Value.is_iff, Value.key?, Option.some.injEq, hkey]
        rfl
      have hafter : contextField? h e.2 "cluster" =
          if name.key = Key.str name.text then some (.str new) else some (.leaf l) := by
        rw [contextField?_of_repoints hrep hm (hd.mappings .contexts _ hm), hl, Option.any_some]
        simp only [true_and, his]
      rw [Document.withName, hafter]
      constructor
      · rintro ⟨w, hw, hstr⟩
        split at hw
        · next hold => exact ⟨_, Label.eq_str_of_key hold⟩
        · obtain rfl := Value.leaf.inj (Option.some.inj hw)
          exact ⟨_, Label.eq_str_of_key (hkey.symm.trans hstr)⟩
      · rintro ⟨s, rfl⟩
        exact ⟨.str new, if_pos rfl, rfl⟩

/-! ### Writing -/

theorem map_eq_map_of_forall₂ {α β γ : Type} {R : α → β → Prop} {f : α → γ} {f' : β → γ}
    {xs : List α} {ys : List β} (hall : List.Forall₂ R xs ys)
    (h : ∀ x, ∀ y ∈ ys, R x y → f x = f' y) : xs.map f = ys.map f' := by
  induction hall with
  | nil => rfl
  | cons hxy _ ih =>
      rw [List.map_cons, List.map_cons, h _ _ List.mem_cons_self hxy,
        ih fun x y hy => h x y (List.mem_cons_of_mem _ hy)]

theorem Part.forall₂_listed {p : Part} {top : Entries} (hstands : p.StandsIn g top es) :
    List.Forall₂ (p.IsWritten g) (p.listed g top) es := by
  rw [StandsIn] at hstands
  rw [listed]
  cases hfield : field? top p.key with
  | none =>
      rw [hfield] at hstands
      subst hstands
      exact .nil
  | some list =>
      rw [hfield] at hstands
      obtain ⟨items, hitems, hall⟩ := hstands
      rw [Option.bind_some, hitems]
      exact hall

theorem Part.IsWritten.fields {p : Part} {e : Label × Value} (hitem : p.IsWritten g item e) :
    contextField? g item "name" = some (.leaf e.1) ∧
      contextField? g item p.bodyKey = some e.2 := by
  obtain ⟨fields, hfields, hname, hbody⟩ := hitem.shows
  exact ⟨Option.bind_eq_some_iff.2 ⟨fields, hfields, hname⟩,
    Option.bind_eq_some_iff.2 ⟨fields, hfields, hbody⟩⟩

theorem Part.IsWritten.clusterOf? {e : Label × Value} (hitem : Part.contexts.IsWritten h item e)
    (hbody : g.IsMapping e.2) (hext : h.Extends g) :
    clusterOf? h item = contextField? g e.2 "cluster" := by
  obtain ⟨id, fields, hid, hcell⟩ := hbody
  have hfields : g.entries? e.2 = some fields := Graph.entries?_eq_some_iff.2 ⟨id, hid, hcell⟩
  have hcontext : contextField? h item "context" = some e.2 := hitem.fields.2
  rw [Kubeconfig.clusterOf?, hcontext, Option.bind_some, contextField?, contextField?,
    hext.entries? hfields, hfields]

/-- What is built of a document is coherent if its contexts are and one of them is in use. -/
theorem coherent_arranged_iff {keys : List Label} {body : Value} {current : String}
    (hd : d.WellFormed) (hothers : d.CarriesOthers) (hcluster : d.clusters = [(.str new, body)])
    (hcurrent : d.currentContext = .str current) (hnamed : current ≠ "") :
    Coherent d.written.2 (Document.arranged d.written.1 d.extra keys) (.str new) ↔
      (∀ e ∈ d.contexts, ∃ l, contextField? d.graph e.2 "cluster" = some (.leaf l) ∧
        l.key = Key.str new) ∧ Key.str current ∈ (Table.keys d.contexts : List Key) := by
  have hwritten := fun p => Part.forall₂_listed (Document.standsIn hothers keys p)
  have hfield : field? (Document.arranged d.written.1 d.extra keys) currentContextKey =
      some (.str current) := by
    have htruthy : d.graph.isTruthy (.str current) = true := by
      simpa [Graph.isTruthy, Label.isTruthy, Scalar.isTruthy] using hnamed
    rw [Document.field?_currentContext hd hothers, hcurrent, if_pos htruthy]
  have hclusters : (Part.contexts.listed d.written.2
      (Document.arranged d.written.1 d.extra keys)).map (clusterOf? d.written.2) =
      d.contexts.map fun e => contextField? d.graph e.2 "cluster" :=
    map_eq_map_of_forall₂ (hwritten .contexts) fun item e he hitem =>
      hitem.clusterOf? (hd.mappings .contexts e he) (Document.managed_spec d).1
  have hnames : (Part.contexts.listed d.written.2
      (Document.arranged d.written.1 d.extra keys)).map (contextField? d.written.2 · "name") =
      d.contexts.map fun e => some (.leaf e.1) :=
    map_eq_map_of_forall₂ (hwritten .contexts) fun item e _ hitem => hitem.fields.1
  have hcontexts : (∀ item ∈ Part.contexts.listed d.written.2
      (Document.arranged d.written.1 d.extra keys),
        ∃ l, clusterOf? d.written.2 item = some (.leaf l) ∧ l.key = Key.str new) ↔
      ∀ e ∈ d.contexts, ∃ l, contextField? d.graph e.2 "cluster" = some (.leaf l) ∧
        l.key = Key.str new := by
    have hall := congrArg
      (fun xs => ∀ x ∈ xs, ∃ l, x = some (.leaf l) ∧ l.key = Key.str new) hclusters
    simpa only [List.forall_mem_map, eq_iff_iff] using hall
  have hinUse : (∃ item ∈ Part.contexts.listed d.written.2
      (Document.arranged d.written.1 d.extra keys),
        ∃ m, contextField? d.written.2 item "name" = some (.leaf m) ∧ m.key = Key.str current) ↔
      Key.str current ∈ (Table.keys d.contexts : List Key) := by
    have hexists := congrArg
      (fun xs => ∃ x ∈ xs, ∃ m, x = some (Value.leaf m) ∧ m.key = Key.str current) hnames
    simp only [List.mem_map, exists_exists_and_eq_and, eq_iff_iff, Option.some.injEq,
      Value.leaf.injEq, exists_eq_left'] at hexists
    rw [hexists, Table.keys, List.mem_map]
    rfl
  constructor
  · intro hcoherent
    obtain ⟨l, hl, hitem⟩ := hcoherent.current
    obtain rfl := Value.leaf.inj (Option.some.inj (hfield.symm.trans hl))
    exact ⟨hcontexts.1 hcoherent.contexts, hinUse.1 hitem⟩
  · rintro ⟨hall, hmem⟩
    constructor
    case cluster =>
      have hone := hwritten .clusters
      rw [Document.entries, hcluster] at hone
      obtain ⟨item, rest, hitem, hrest, hlisted⟩ := List.forall₂_cons_right_iff.1 hone
      obtain rfl := List.forall₂_nil_right_iff.1 hrest
      exact ⟨item, hlisted, hitem.fields.1⟩
    case contexts => exact hcontexts.2 hall
    case current => exact ⟨.str current, hfield, hinUse.2 hmem⟩

/-! ### From reading to writing -/

theorem renamedTo_ne_empty {old t : String} (hnew : new ≠ "") (ht : t ≠ "") :
    renamedTo old new t ≠ "" := by
  rw [renamedTo]
  split
  · exact hnew
  · exact ht

theorem mem_keys_renamed_iff {old : String} (hg : g.Closed)
    (hread : Document.ofMapping g raw = .ok d) (hne : Part.contexts.listed g raw ≠ [])
    (hkeys : ∀ key : Key, key ∈ (Table.keys d'.contexts : List Key) ↔
      ∃ l ∈ (Table.keys d.contexts : List Key), (if l = .str old then .str new else l) = key)
    (name : String) :
    Key.str name ∈ (Table.keys d'.contexts : List Key) ↔
      ∃ item ∈ Part.contexts.listed g raw, ∃ t, entryName? g item = some t ∧
        renamedTo old new t = name := by
  have hbefore : ∀ key : Key, key ∈ (Table.keys d.contexts : List Key) ↔
      ∃ item ∈ Part.contexts.listed g raw, ∃ t, entryName? g item = some t ∧ key = .str t :=
    (Part.names_of_listed hg hread hne).2
  have hrenamed : ∀ t, (if Key.str t = .str old then Key.str new else .str t) =
      .str (renamedTo old new t) := by
    intro t
    rw [renamedTo, apply_ite Key.str]
    simp
  rw [hkeys]
  constructor
  · rintro ⟨key, hkey, hname⟩
    obtain ⟨item, hitem, t, ht, rfl⟩ := (hbefore key).1 hkey
    rw [hrenamed] at hname
    exact ⟨item, hitem, t, ht, by simpa using hname⟩
  · rintro ⟨item, hitem, t, ht, rfl⟩
    exact ⟨.str t, (hbefore _).2 ⟨item, hitem, t, ht, rfl⟩, hrenamed t⟩

/-- What is built of a renamed document is coherent if the cluster had a text for a name, and the
context in use is spelt like the name of a context. -/
theorem coherent_renamed_iff (hg : g.WellFormed) (hraw : g.entries? v = some raw)
    (hcoherent : Coherent g raw name) (hread : Document.ofMapping g raw = .ok d) (hnew : new ≠ "") :
    ∃ d' top h, rename d new = .ok d' ∧ d'.toMapping = .ok (top, h) ∧
      (Coherent h top (.str new) ↔ (∃ s, name = .str s) ∧
        ∃ l, field? raw currentContextKey = some (.leaf l) ∧
          ∃ item ∈ Part.contexts.listed g raw, ∃ t, entryName? g item = some t ∧
            renamedTo name.text new t = renamedTo name.text new l.text) := by
  have hd := (Document.ofMapping_eq_ok hread).1
  obtain ⟨id, -, hcell⟩ := Graph.entries?_eq_some_iff.1 hraw
  have hlaid := (Document.ofMapping_laidOut hread (hg.distinct id raw hcell)).1
  obtain ⟨l, hl, -⟩ := hcoherent.current
  have hrefers := hcoherent.refersTo hg.closed hl hread
  obtain ⟨d', body, hok, hcluster, hinUse, hkeys, hcontexts⟩ := hrefers.rename hd hnew
  have hlaid' := hlaid.rename hd hok
  have hnames := mem_keys_renamed_iff hg.closed hread hcoherent.listed_ne_nil.2 hkeys
    (renamedTo name.text new l.text)
  refine ⟨d', _, _, hok, Document.toMapping_eq hlaid'.carriesOthers hlaid'.order, ?_⟩
  rw [coherent_arranged_iff (hd.rename hok).1 hlaid'.carriesOthers hcluster hinUse
    (renamedTo_ne_empty hnew hrefers.named), hnames]
  constructor
  · rintro ⟨hall, hitem⟩
    obtain ⟨e, he, -⟩ := List.mem_map.1 (hnames.2 hitem)
    exact ⟨(hcontexts e he).1 (hall e he), l, hl, hitem⟩
  · rintro ⟨htext, w, hw, hitem⟩
    obtain rfl := Value.leaf.inj (Option.some.inj (hl.symm.trans hw))
    exact ⟨fun e he => (hcontexts e he).2 htext, hitem⟩

/-- **References survive** from the mapping that is loaded to the one that is built for a new name,
if and only if the cluster had a text for a name, and the context in use is spelt like the name of a
context, after the old name was replaced in both. -/
theorem references_survive_iff {bytes : List UInt8} (hload : Yaml.loadBytes bytes = .ok (v, g))
    (hraw : g.entries? v = some raw) (hcoherent : Coherent g raw name)
    (hparse : parse bytes = .ok d) (hnew : new ≠ "") :
    ∃ d' top h, rename d new = .ok d' ∧ d'.toMapping = .ok (top, h) ∧
      (Coherent h top (.str new) ↔ (∃ s, name = .str s) ∧
        ∃ l, field? raw currentContextKey = some (.leaf l) ∧
          ∃ item ∈ Part.contexts.listed g raw, ∃ t, entryName? g item = some t ∧
            renamedTo name.text new t = renamedTo name.text new l.text) :=
  coherent_renamed_iff (Yaml.loadBytes_eq_ok hload).1 hraw hcoherent
    ((parse_of_entries hload hraw).symm.trans hparse) hnew

/-! ### A cluster by a text and by a number -/

def single (name : String) : String :=
  "clusters:\n- name: " ++ name ++ "\n  cluster:\n    server: s\ncontexts:\n- name: c\n" ++
    "  context:\n    cluster: " ++ name ++ "\ncurrent-context: c\n"

def singleNodes (tag : Yaml.Tag) (name : String) : Yaml.Document where
  nodes := #[⟨.map, .mapping [(1, 2), (10, 11), (19, 20)]⟩, ⟨.str, .scalar "clusters"⟩,
    ⟨.seq, .sequence [3]⟩, ⟨.map, .mapping [(4, 5), (6, 7)]⟩, ⟨.str, .scalar "name"⟩,
    ⟨tag, .scalar name⟩, ⟨.str, .scalar "cluster"⟩, ⟨.map, .mapping [(8, 9)]⟩,
    ⟨.str, .scalar "server"⟩, ⟨.str, .scalar "s"⟩, ⟨.str, .scalar "contexts"⟩,
    ⟨.seq, .sequence [12]⟩, ⟨.map, .mapping [(13, 14), (15, 16)]⟩, ⟨.str, .scalar "name"⟩,
    ⟨.str, .scalar "c"⟩, ⟨.str, .scalar "context"⟩, ⟨.map, .mapping [(17, 18)]⟩,
    ⟨.str, .scalar "cluster"⟩, ⟨tag, .scalar name⟩, ⟨.str, .scalar "current-context"⟩,
    ⟨.str, .scalar "c"⟩]
  root := 0

def singleTop : Entries :=
  [(.str "clusters", .ref 1), (.str "contexts", .ref 2), (.str "current-context", .str "c")]

def singleGraph (name : Label) : Graph := ⟨#[
  .map singleTop,
  .list [.ref 3],
  .list [.ref 4],
  .map [(.str "name", .leaf name), (.str "cluster", .ref 5)],
  .map [(.str "name", .str "c"), (.str "context", .ref 6)],
  .map [(.str "server", .str "s")],
  .map [(.str "cluster", .leaf name)]]⟩

def singleDocument (name : Label) : Document where
  graph := singleGraph name
  clusters := [(.str name.text, .ref 5)]
  contexts := [(.str "c", .ref 6)]
  users := []
  currentContext := .str "c"
  extra := []
  keyOrder := [.str "clusters", .str "contexts", .str "current-context"]

theorem entries?_single (name : Label) :
    (singleGraph name).entries? (.ref 0) = some singleTop := rfl

theorem load_single {name : String} {tag : Yaml.Tag} {l : Label}
    (hname : name = "a" ∧ tag = .str ∧ l = .str "a" ∨
      name = "1" ∧ tag = .int ∧ l = .scalar (.int 1)) :
    Yaml.loadBytes (Text.Utf8.encode (single name).toList) = .ok (.ref 0, singleGraph l) := by
  have hnodes : ∀ a ∈ [("a", Yaml.Tag.str), ("1", .int)],
      Yaml.checkedBytes (Text.Utf8.encode (single a.1).toList) = .ok (single a.1).toList ∧
      Yaml.Document.read (Yaml.Event.read (Yaml.Token.read (single a.1).toList)) =
        .ok (some (singleNodes a.2 a.1)) := by decide +kernel
  have hmem : (name, tag) ∈ [("a", Yaml.Tag.str), ("1", .int)] := by
    rcases hname with ⟨rfl, rfl, -⟩ | ⟨rfl, rfl, -⟩ <;> simp
  obtain ⟨hchars, hread⟩ := hnodes _ hmem
  rw [Yaml.loadBytes_of_nodes hchars hread]
  rcases hname with ⟨rfl, rfl, rfl⟩ | ⟨rfl, rfl, rfl⟩ <;> cbv

theorem coherent_single (name : Label) : Coherent (singleGraph name) singleTop name where
  cluster := ⟨.ref 3, rfl, rfl⟩
  contexts := List.forall_mem_singleton.2 ⟨name, rfl, rfl⟩
  current := ⟨.str "c", rfl, .ref 4, List.mem_singleton_self _, .str "c", rfl, rfl⟩

theorem ofMapping_single {name : Label} (htruthy : name.isTruthy = true)
    (hshown : shown (singleGraph name) (.leaf name) = .ok name.datum) :
    Document.ofMapping (singleGraph name) singleTop = .ok (singleDocument name) := by
  have hcluster : Part.clusters.readEntry (singleGraph name) (.ref 3) =
      .ok ((.str name.text, .ref 5), singleGraph name) := by
    have hfields : (singleGraph name).entries? (.ref 3) =
        some [(.str "name", .leaf name), (.str "cluster", .ref 5)] := rfl
    have hname : present? (singleGraph name) [(.str "name", .leaf name), (.str "cluster", .ref 5)]
        "name" = some (.leaf name) := if_pos htruthy
    rw [Part.readEntry, hfields, Option.bind_some, hname, Option.map_some]
    exact bind_eq_ok_iff.2 ⟨_, hshown, rfl⟩
  have hcontext : Part.contexts.readEntry (singleGraph name) (.ref 4) =
      .ok ((.str "c", .ref 6), singleGraph name) :=
    bind_eq_ok_iff.2 ⟨_, shown_str _ "c", rfl⟩
  have hread : ∀ (p : Part) (list item : Value) (e : Label × Value),
      field? singleTop p.key = some list → (singleGraph name).items? list = some [item] →
      p.readEntry (singleGraph name) item = .ok (e, singleGraph name) →
      p.read (singleGraph name) singleTop = .ok ([e], singleGraph name) := by
    intro p list item e hlist hitems hentry
    have hentries : p.readEntries (singleGraph name) [item] = .ok ([e], singleGraph name) :=
      bind_eq_ok_iff.2 ⟨_, hentry, rfl⟩
    rw [Part.read_of_items hlist hitems (by simp), hentries]
    rfl
  refine bind_eq_ok_iff.2 ⟨_, hread .clusters _ _ _ rfl rfl hcluster, ?_⟩
  refine bind_eq_ok_iff.2 ⟨_, hread .contexts _ _ _ rfl rfl hcontext, ?_⟩
  refine bind_eq_ok_iff.2 ⟨([], singleGraph name), rfl, ?_⟩
  exact bind_eq_ok_iff.2 ⟨.str "c", bind_eq_ok_iff.2 ⟨_, shown_str _ "c", rfl⟩, rfl⟩

/-- A cluster by a text is renamed in its context. -/
theorem references_survive_text :
    ∃ d d' top h, parse (Text.Utf8.encode (single "a").toList) = .ok d ∧ rename d "b" = .ok d' ∧
      d'.toMapping = .ok (top, h) ∧ Coherent h top (.str "b") := by
  have hload := load_single (.inl ⟨rfl, rfl, rfl⟩)
  have hparse : parse (Text.Utf8.encode (single "a").toList) = .ok (singleDocument (.str "a")) := by
    rw [parse_of_entries hload (entries?_single _)]
    exact ofMapping_single rfl (shown_str _ "a")
  obtain ⟨d', top, h, hrename, hbuilt, hcoherent⟩ := references_survive_iff hload
    (entries?_single _) (coherent_single _) hparse (show "b" ≠ "" by decide)
  refine ⟨_, d', top, h, hparse, hrename, hbuilt, hcoherent.2 ⟨⟨"a", rfl⟩, .str "c", rfl, ?_⟩⟩
  exact ⟨.ref 4, List.mem_singleton_self _, "c", by cbv, rfl⟩

theorem shown_one (g : Graph) : shown g (.leaf (.scalar (.int 1))) = .ok (.scalar (.int 1)) := by
  have hwritable : Number.isWritable 1 = true := by decide +kernel
  have htree : g.unfold (.leaf (.scalar (.int 1))) = .scalar (.int 1) := by
    rw [Graph.unfold, Graph.unfoldBelow]
    rfl
  rw [shown, htree]
  exact if_pos hwritable

/-- A context that refers to a cluster by a number is left behind. -/
theorem references_lost_number :
    ¬ ∀ (bytes : List UInt8) (v : Value) (g : Graph) (raw : Entries) (name : Label) (d : Document)
        (new : String), Yaml.loadBytes bytes = .ok (v, g) → g.entries? v = some raw →
      Coherent g raw name →
      (Part.contexts.listed g raw).Pairwise (fun i j => ∀ l m,
        contextField? g i "name" = some (.leaf l) → contextField? g j "name" = some (.leaf m) →
          l.key ≠ m.key) →
      parse bytes = .ok d → new ≠ "" →
      (∀ i ∈ Part.contexts.listed g raw, ∀ l, contextField? g i "name" = some (.leaf l) →
        l.key ≠ Key.str new) →
      ∃ d' top h, rename d new = .ok d' ∧ d'.toMapping = .ok (top, h) ∧
        Coherent h top (.str new) := by
  intro hall
  have hload := load_single (.inr ⟨rfl, rfl, rfl⟩)
  have hread : Document.ofMapping (singleGraph (.scalar (.int 1))) singleTop = .ok _ :=
    ofMapping_single rfl (shown_one _)
  have hparse := (parse_of_entries hload (entries?_single _)).trans hread
  have hfresh : ∀ i ∈ Part.contexts.listed (singleGraph (.scalar (.int 1))) singleTop, ∀ l,
      contextField? (singleGraph (.scalar (.int 1))) i "name" = some (.leaf l) →
        l.key ≠ Key.str "b" := by
    refine List.forall_mem_singleton.2 fun l hl => ?_
    have hc : l = .str "c" := (Value.leaf.inj (Option.some.inj hl)).symm
    simp [hc, Label.key, Scalar.key]
  obtain ⟨d', top, h, hrename, hbuilt, hcoherent⟩ := hall _ _ _ _ _ _ "b" hload
    (entries?_single _) (coherent_single _) (List.pairwise_singleton _ _) hparse (by decide) hfresh
  obtain ⟨e', top', h', hrename', hbuilt', hiff⟩ := coherent_renamed_iff
    (Yaml.loadBytes_eq_ok hload).1 (entries?_single _) (coherent_single _) hread
    (show "b" ≠ "" by decide)
  cases hrename.symm.trans hrename'
  cases hbuilt.symm.trans hbuilt'
  obtain ⟨⟨s, hs⟩, -⟩ := hiff.1 hcoherent
  cases hs

end Kubeconfig
end KubeAtlas
