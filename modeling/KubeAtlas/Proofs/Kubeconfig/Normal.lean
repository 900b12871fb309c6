import Mathlib
import KubeAtlas.Proofs.Graph.Same
import KubeAtlas.Proofs.Kubeconfig.Copy
import KubeAtlas.Proofs.Kubeconfig.Fresh
/-!
# The normal form of a mapping

Reading a mapping and building it again makes its managed sections regular: a section that is null
becomes an empty list, an entry has its name first, as text, and its body second, and nothing else.
The layout stays, and so does everything that is not managed. What is built is read as the same
document, so that it is built again as it is; and a mapping that was regular to begin with is built
as it was found.
-/

namespace KubeAtlas.Kubeconfig

variable {g h k : Graph} {d : Document} {es fs top : Entries}

def SameEntry (g : Graph) (e f : Label × Value) : Prop := e.1 = f.1 ∧ g.Same e.2 f.2

theorem same_refreshBody {body : Value} (hbody : h.IsMapping body)
    (hk : k.Extends (refreshBody h body).2) : k.Same body (refreshBody h body).1 := by
  rw [refreshBody] at hk ⊢
  split
  · exact .refl body
  · next hnot =>
      rw [if_neg hnot] at hk
      obtain ⟨id, es, rfl, hcell⟩ := hbody
      obtain rfl : es = [] := by
        simpa [Graph.isTruthy, hcell, Cell.isEmpty] using hnot
      have hold : h.entries? (.ref id) = some [] := Graph.entries?_eq_some_iff.2 ⟨id, rfl, hcell⟩
      have hnew : (h.alloc (.map [])).2.entries? (.ref (h.alloc (.map [])).1) = some [] :=
        Graph.entries?_eq_some_iff.2 ⟨_, rfl, Graph.cell_alloc_self h _⟩
      exact .map ((hk.trans (Graph.extends_alloc h _)).entries? hold) (hk.entries? hnew) (.refl _)
        fun _ _ _ hx => by cases hx

theorem same_refresh (hes : ∀ e ∈ es, h.IsMapping e.2) (hk : k.Extends (refresh h es).2) :
    List.Forall₂ (SameEntry k) es (refresh h es).1 := by
  induction es generalizing h with
  | nil => exact .nil
  | cons e rest ih =>
      obtain ⟨he, hrest⟩ := List.forall_mem_cons.1 hes
      have hext := refreshBody_extends h e.2
      refine .cons ⟨rfl, same_refreshBody he (hk.trans (refresh_extends _ rest))⟩ (ih ?_ hk)
      exact fun f hf => (hrest f hf).extend hext

/-! ### Sections -/

namespace Part

variable {p : Part} {item list list' : Value} {items items' : List Value}

/-- An item with a name and a body and nothing else, in either order. -/
def IsPlain (p : Part) (g : Graph) (item : Value) (e : Label × Value) : Prop :=
  ∃ fields, g.entries? item = some fields ∧
    fields.Perm [(.str "name", .leaf e.1), (.str p.bodyKey, e.2)]

def IsPlainList (p : Part) (g : Graph) (list : Value) (es : Entries) : Prop :=
  ∃ items, g.items? list = some items ∧ List.Forall₂ (p.IsPlain g) items es

theorem IsListOf.isPlainList (hlist : p.IsListOf g list es) : p.IsPlainList g list es := by
  obtain ⟨items, hitems, hall⟩ := hlist
  exact ⟨items, hitems, hall.imp fun _ _ hitem => ⟨_, hitem, .refl _⟩⟩

theorem IsPlain.extend {e : Label × Value} (hitem : p.IsPlain g item e) (hext : h.Extends g) :
    p.IsPlain h item e := by
  obtain ⟨fields, hfields, hperm⟩ := hitem
  exact ⟨fields, hext.entries? hfields, hperm⟩

theorem IsPlainList.extend (hlist : p.IsPlainList g list es) (hext : h.Extends g) :
    p.IsPlainList h list es := by
  obtain ⟨items, hitems, hall⟩ := hlist
  exact ⟨items, hext.items? hitems, hall.imp fun _ _ hitem => hitem.extend hext⟩

theorem name_ne_bodyKey (p : Part) : Key.str "name" ≠ Key.str p.bodyKey := by
  cases p <;> decide

theorem IsPlain.keys_perm {fields : Entries} {e : Label × Value}
    (hperm : fields.Perm [(.str "name", .leaf e.1), (.str p.bodyKey, e.2)]) :
    (Table.keys fields : List Key).Perm [Key.str "name", Key.str p.bodyKey] := hperm.map _

theorem found_of_perm {fields : Entries} {e : Label × Value} {k : Key} {v : Value}
    (hperm : fields.Perm [(.str "name", .leaf e.1), (.str p.bodyKey, e.2)])
    (hfind : Table.find? k fields = some v) :
    k = .str "name" ∧ v = .leaf e.1 ∨ k = .str p.bodyKey ∧ v = e.2 := by
  obtain ⟨l, rfl, hmem⟩ := Table.exists_of_find? hfind
  rcases List.mem_cons.1 (hperm.subset hmem) with hname | hbody
  · obtain ⟨rfl, rfl⟩ := Prod.mk.inj hname
    exact .inl ⟨rfl, rfl⟩
  · obtain ⟨rfl, rfl⟩ := Prod.mk.inj (List.mem_singleton.1 hbody)
    exact .inr ⟨rfl, rfl⟩

theorem IsPlain.shows {e : Label × Value} (hitem : p.IsPlain g item e) : p.Shows g item e := by
  obtain ⟨fields, hfields, hperm⟩ := hitem
  have hnodup : (Table.keys fields : List Key).Nodup := (keys_perm hperm).nodup_iff.2
    (List.nodup_cons.2 ⟨mt List.mem_singleton.1 p.name_ne_bodyKey, List.nodup_singleton _⟩)
  have hname : (Label.str "name", Value.leaf e.1) ∈ fields := hperm.symm.subset (by simp)
  have hbody : (Label.str p.bodyKey, e.2) ∈ fields := hperm.symm.subset (by simp)
  exact ⟨fields, hfields, Table.find?_of_mem hnodup hname, Table.find?_of_mem hnodup hbody⟩

theorem IsPlain.same {item' : Value} {e f : Label × Value} (hitem : p.IsPlain g item e)
    (hitem' : p.IsPlain g item' f) (hef : SameEntry g e f) : g.Same item item' := by
  obtain ⟨fields, hfields, hperm⟩ := hitem
  obtain ⟨fields', hfields', hperm'⟩ := hitem'
  refine .map hfields hfields' ?_ fun k x y hx hy => ?_
  · exact (keys_perm hperm).trans (keys_perm hperm').symm
  · rcases found_of_perm hperm hx with ⟨rfl, rfl⟩ | ⟨rfl, rfl⟩
    · rcases found_of_perm hperm' hy with ⟨-, rfl⟩ | ⟨hkey, -⟩
      · rw [hef.1]
        exact .refl _
      · exact absurd hkey p.name_ne_bodyKey
    · rcases found_of_perm hperm' hy with ⟨hkey, -⟩ | ⟨-, rfl⟩
      · exact absurd hkey.symm p.name_ne_bodyKey
      · exact hef.2

theorem IsPlainList.same (hlist : p.IsPlainList g list es) (hlist' : p.IsPlainList g list' fs)
    (hes : List.Forall₂ (SameEntry g) es fs) : g.Same list list' := by
  obtain ⟨items, hitems, hall⟩ := hlist
  obtain ⟨items', hitems', hall'⟩ := hlist'
  have hsame : List.Forall₂ g.Same items items' := by
    clear hitems hitems'
    induction hes generalizing items items' with
    | nil =>
        cases hall
        cases hall'
        exact .nil
    | cons hef _ ih =>
        cases hall with
        | cons hitem hall =>
            cases hall' with
            | cons hitem' hall' => exact .cons (hitem.same hitem' hef) (ih _ hall _ hall')
  obtain ⟨hlength, hzip⟩ := List.forall₂_iff_zip.1 hsame
  exact .list hitems hitems' hlength fun x y hxy => hzip hxy

/-- A section in normal form: its items have different names, which are text, and mappings. -/
structure IsSection (p : Part) (g : Graph) (list : Value) (es : Entries) : Prop where
  plain : p.IsPlainList g list es
  named : ∀ e ∈ es, ∃ name, e.1 = .str name ∧ name ≠ ""
  mappings : ∀ e ∈ es, g.IsMapping e.2
  distinct : (Table.keys es : List Key).Nodup

theorem IsSection.read_eq {top : Entries} (hsection : p.IsSection g list es)
    (hfield : field? top p.key = some list) (hext : h.Extends g) :
    p.read h top = .ok (refresh h es) := by
  obtain ⟨items, hitems, hall⟩ := hsection.plain
  exact read_of_shows hfield hitems (hall.imp fun _ _ => IsPlain.shows) hsection.mappings
    hsection.named hsection.distinct hext

end Part

/-! ### Mappings -/

/-- A mapping in normal form. -/
structure IsNormal (g : Graph) (top : Entries) : Prop where
  sections : ∀ (p : Part) (list : Value), field? top p.key = some list →
    ∃ es, p.IsSection g list es
  current : ∀ v, field? top currentContextKey = some v → ∃ name, v = .str name

namespace Document

variable {d' : Document} {raw : Entries} {keys : List Label}

/-- Documents with the same contents, the second in a graph that the first can be seen in. -/
structure Agrees (d d' : Document) : Prop where
  extended : d'.graph.Extends d.graph
  entries : ∀ p, List.Forall₂ (SameEntry d'.graph) (d.entries p) (d'.entries p)
  currentContext : d'.currentContext = d.currentContext
  extra : d'.extra = d.extra
  keyOrder : d'.keyOrder = d.keyOrder

/-! ### What is built is normal -/

theorem isNormal_arranged (hd : d.WellFormed) (hnamed : d.IsNamed) (hothers : d.CarriesOthers)
    (keys : List Label) : IsNormal d.written.2 (arranged d.written.1 d.extra keys) where
  sections p list hfield := by
    have hstands := standsIn hothers keys p
    rw [Part.StandsIn, hfield] at hstands
    refine ⟨d.entries p, hstands.isPlainList, fun e he => ?_, fun e he => ?_, hd.distinct p⟩
    · obtain ⟨name, hname⟩ := hd.named p e he
      exact ⟨name, hname, fun hempty => hnamed.entries p e he (hempty ▸ hname)⟩
    · exact (hd.mappings p e he).extend (managed_spec d).1
  current v hv := by
    rw [field?_currentContext hd hothers] at hv
    split at hv
    · next htruthy =>
        obtain rfl := Option.some.inj hv
        refine hd.current.resolve_left fun hnull => ?_
        rw [hnull] at htruthy
        cases htruthy
    · split at hv
      · exact ⟨"", (Option.some.inj hv).symm⟩
      · cases hv

/-! ### What is normal is built as it was found -/

theorem same_section {p : Part} {list list' : Value} (hread : ofMapping g raw = .ok d)
    (hsection : p.IsSection g list es) (hfield : field? raw p.key = some list)
    (hext : h.Extends d.graph) (hlist : p.IsListOf h list' (d.entries p)) :
    h.Same list list' := by
  obtain ⟨k, l, hk, hpart, hl⟩ := ofMapping_part hread p
  rw [hsection.read_eq hfield hk] at hpart
  have hentries : refresh k es = (d.entries p, l) := Except.ok.inj hpart
  have hsame : List.Forall₂ (SameEntry h) es (refresh k es).1 :=
    same_refresh (fun e he => (hsection.mappings e he).extend hk) (by
      rw [hentries]
      exact hext.trans hl)
  rw [hentries] at hsame
  exact (hsection.plain.extend (hext.trans (ofMapping_extends hread))).same hlist.isPlainList hsame

theorem same_currentContext {name : String} {w : Value} (hread : ofMapping g raw = .ok d)
    (hothers : d.CarriesOthers) (hname : field? raw currentContextKey = some (.str name))
    (hw : field? (arranged d.written.1 d.extra keys) currentContextKey = some w) :
    w = .str name := by
  obtain ⟨-, -, -, -, -, hcurrent, -⟩ := ofMapping_parts hread
  rw [field?_currentContext (ofMapping_eq_ok hread).1 hothers] at hw
  rw [present?, hname, Option.filter_some] at hcurrent
  by_cases hempty : name = ""
  · subst hempty
    obtain ⟨-, hnull⟩ := hcurrent.resolve_right (by rintro ⟨v, hv, -⟩; cases hv)
    rw [hnull, if_neg (by simp [Graph.isTruthy, Label.isTruthy, Scalar.isTruthy])] at hw
    split at hw
    · exact (Option.some.inj hw).symm
    · cases hw
  · have htruthy : d.graph.isTruthy (.str name) = true := by
      simpa [Graph.isTruthy, Label.isTruthy, Scalar.isTruthy] using hempty
    rw [if_pos htruthy] at hcurrent
    obtain ⟨v, hv, hcontext⟩ := hcurrent.resolve_left (by rintro ⟨hnone, -⟩; cases hnone)
    obtain rfl := Option.some.inj hv
    have hsame : d.currentContext = .str name := by
      rw [hcontext, Graph.unfold, Graph.unfoldBelow]
      rfl
    rw [hsame, if_pos htruthy] at hw
    exact (Option.some.inj hw).symm

theorem sameEntries_of_isNormal (hread : ofMapping g raw = .ok d)
    (hdistinct : (Table.keys raw : List Key).Nodup) (hnormal : IsNormal g raw) :
    d.written.2.SameEntries raw (arranged d.written.1 d.extra (raw.map (·.1))) := by
  have hwf := (ofMapping_eq_ok hread).1
  obtain ⟨hlaid, -⟩ := ofMapping_laidOut hread hdistinct
  have hothers := hlaid.carriesOthers
  refine ⟨(hlaid.labels_arranged hwf).symm, fun k x y hx hy => ?_⟩
  cases hmanaged : isManaged k with
  | true =>
      rcases List.mem_append.1 (isManaged_iff.1 hmanaged) with hpart | hcurrent
      · obtain ⟨p, -, rfl⟩ := List.mem_map.1 hpart
        obtain ⟨es, hsection⟩ := hnormal.sections p x hx
        have hstands := standsIn hothers (raw.map (·.1)) p
        rw [Part.StandsIn, field?, hy] at hstands
        exact same_section hread hsection hx (managed_spec d).1 hstands
      · obtain rfl := List.mem_singleton.1 hcurrent
        obtain ⟨name, rfl⟩ := hnormal.current x hx
        rw [same_currentContext hread hothers hx hy]
        exact .refl _
  | false =>
      -- a carried value is found where it was
      obtain ⟨-, -, -, -, -, -, hextra, -⟩ := ofMapping_parts hread
      have hcarried := congrArg (Table.find? k) ((hlaid.carried_arranged hwf).trans hextra)
      have hfilter := fun t : Entries => Table.find?_filter k (fun k => !isManaged k) t
      simp only [hmanaged, Bool.not_false, if_true] at hfilter
      rw [hfilter, hfilter, hx, hy] at hcarried
      rw [Option.some.inj hcarried]
      exact .refl _

/-! ### What is built is read as the same document -/

theorem agrees_reread (hd : d.WellFormed) (hlaid : d.LaidOut keys) (hnamed : d.IsNamed) :
    d.Agrees (d.reread d.written.2 (arranged d.written.1 d.extra keys)) where
  extended := (reread_extends d.written.2 d _).trans (managed_spec d).1
  entries p := by
    obtain ⟨h, hext, hentries, hgraph⟩ :=
      reread_part d.written.2 d (arranged d.written.1 d.extra keys) p
    rw [hentries]
    have hbase := hext.trans (managed_spec d).1
    exact same_refresh (fun e he => (hd.mappings p e he).extend hbase) hgraph
  currentContext := by
    refine hd.heldContext.trans (if_neg ?_)
    rcases hd.current with hnull | ⟨name, hname⟩
    · rw [hnull]; decide
    · have hne := hname ▸ hnamed.current
      rw [hname]
      simpa [Value.is, Value.key?, Label.key, Scalar.key] using hne
  extra := hlaid.carried_arranged hd
  keyOrder := by
    have hlabels := congrArg (List.map Value.leaf) (hlaid.labels_arranged hd)
    rw [List.map_map] at hlabels
    exact hlabels.trans hlaid.order.symm

theorem Agrees.view_eq (hagrees : d.Agrees d') (hd : d.IsRead)
    (hparts : ∀ p, trees d'.graph (d'.entries p) = trees d.graph (d.entries p)) :
    d'.view = d.view := by
  have hunfold := fun {v : Value} (hv : ∀ a ∈ v.ids, a < d.graph.cells.size) =>
    Graph.unfold_of_extends hd.ownsEmpty.closed hagrees.extended hv
  have hclusters : trees d'.graph d'.clusters = _ := hparts .clusters
  have hcontexts : trees d'.graph d'.contexts = _ := hparts .contexts
  have husers : trees d'.graph d'.users = _ := hparts .users
  have hcurrent : ∀ a ∈ d.currentContext.ids, a < d.graph.cells.size := by
    rcases hd.wellFormed.current with hnull | ⟨name, hname⟩
    · simp [hnull, Value.ids, Label.ids]
    · simp [hname, Value.ids, Label.ids]
  have hextra : trees d'.graph d.extra = trees d.graph d.extra :=
    List.map_congr_left fun e he => congrArg (Prod.mk e.1.datum)
      (hunfold fun a ha => (hd.ownsEmpty.extra e he a (.inr ha)).1)
  have horder : d.keyOrder.map d'.graph.unfold = d.keyOrder.map d.graph.unfold :=
    List.map_congr_left fun v hv => hunfold fun a ha => (hd.ownsEmpty.keyOrder v hv a ha).1
  rw [view, view, hagrees.extra, hagrees.keyOrder, hagrees.currentContext, hunfold hcurrent, hextra,
    horder, hclusters, hcontexts, husers]
  rfl

theorem toMapping_of_read (hread : ofMapping g raw = .ok d)
    (hdistinct : (Table.keys raw : List Key).Nodup) :
    d.toMapping = .ok (arranged d.written.1 d.extra (raw.map (·.1)), d.written.2) := by
  obtain ⟨hlaid, -⟩ := ofMapping_laidOut hread hdistinct
  exact toMapping_eq hlaid.carriesOthers hlaid.order

/-- **What was read is built in normal form.** The mapping that is built has the keys of the one
that was read, in their order, and carries what that carried. It is read as the same document, and
so it is built again as it is; and if the mapping that was read was normal, it is what is built. The
keys stay when the document is renamed in between. -/
theorem written_of_read {v : Value} (hg : g.WellFormed) (hraw : g.entries? v = some raw)
    (hread : ofMapping g raw = .ok d) :
    ∃ top h, d.toMapping = .ok (top, h) ∧ h.Extends g ∧ top.map (·.1) = raw.map (·.1) ∧
      (top.filter fun e => !isManaged (Labelled.key e.1)) =
        (raw.filter fun e => !isManaged (Labelled.key e.1)) ∧
      (∃ d' top' h', ofMapping h top = .ok d' ∧ d.Agrees d' ∧ d'.view = d.view ∧
        d'.toMapping = .ok (top', h') ∧ h'.Extends h ∧ h'.SameEntries top top') ∧
      (IsNormal g raw → h.SameEntries raw top) ∧
      ∀ new renamed, rename d new = .ok renamed →
        ∃ top' h', renamed.toMapping = .ok (top', h') ∧ top'.map (·.1) = raw.map (·.1) := by
  obtain ⟨id, rfl, hcell⟩ := Graph.entries?_eq_some_iff.1 hraw
  have hdistinct := hg.distinct id raw hcell
  have hd := ofMapping_isRead hg.closed (fun e he => hg.closed.entries hraw he) hdistinct hread
  have hwf := hd.wellFormed
  obtain ⟨hlaid, hnamed⟩ := ofMapping_laidOut hread hdistinct
  have hothers := hlaid.carriesOthers
  have hbuilt := (managed_spec d).1
  refine ⟨_, _, toMapping_of_read hread hdistinct, hbuilt.trans (ofMapping_extends hread),
    hlaid.labels_arranged hwf, ?_, ?_, sameEntries_of_isNormal hread hdistinct, ?_⟩
  · obtain ⟨-, -, -, -, -, -, hextra, -⟩ := ofMapping_parts hread
    exact (hlaid.carried_arranged hwf).trans hextra
  · -- the second time a mapping in normal form is read
    have hagain := ofMapping_toMapping hwf hothers hnamed.entries (raw.map (·.1))
    have hkeys := nodup_keys_arranged (nodup_keys_written d) hothers.distinct hothers.apart
      (raw.map (·.1))
    have hagrees := agrees_reread hwf hlaid hnamed
    exact ⟨_, _, _, hagain, hagrees,
      hagrees.view_eq hd (trees_reread hd.ownsEmpty.closed hwf hbuilt _),
      toMapping_of_read hagain hkeys, (managed_spec _).1.trans (ofMapping_extends hagain),
      sameEntries_of_isNormal hagain hkeys (isNormal_arranged hwf hnamed hothers _)⟩
  · intro new renamed hrename
    have hlaid' := hlaid.rename hwf hrename
    exact ⟨_, _, toMapping_eq hlaid'.carriesOthers hlaid'.order,
      hlaid'.labels_arranged (hwf.rename hrename).1⟩

/-- A mapping that is not normal: a section is null, and of two entries with one name, which is not
text in the first, the second has no body. -/
def irregularTop : Entries :=
  [(.str "users", .null), (.scalar (.int 1), .ref 1), (.str "clusters", .ref 2),
    (.str "current-context", .null), (.scalar .null, .str "x")]

def irregular : Graph := ⟨#[
  .map irregularTop,
  .list [],
  .list [.ref 3, .ref 4],
  .map [(.str "cluster", .ref 5), (.str "name", .leaf (.scalar (.bool true))),
    (.str "note", .ref 1)],
  .map [(.str "name", .str "True")],
  .map [(.str "server", .str "s")]]⟩

def irregularDocument : Document where
  graph := (irregular.alloc (.map [])).2
  clusters := [(.str "True", .ref 6)]
  contexts := []
  users := []
  currentContext := .null
  extra := [(.scalar (.int 1), .ref 1), (.scalar .null, .str "x")]
  keyOrder := irregularTop.map fun e => .leaf e.1

/-- A mapping in normal form, with the fields of its entry the other way round. -/
def regularTop : Entries := [(.str "current-context", .str ""), (.str "clusters", .ref 1)]

def regular : Graph := ⟨#[
  .map regularTop,
  .list [.ref 2],
  .map [(.str "cluster", .ref 3), (.str "name", .str "a")],
  .map []]⟩

def regularDocument : Document where
  graph := (regular.alloc (.map [])).2
  clusters := [(.str "a", .ref 4)]
  contexts := []
  users := []
  currentContext := .null
  extra := []
  keyOrder := regularTop.map fun e => .leaf e.1

theorem ofMapping_irregular : ofMapping irregular irregularTop = .ok irregularDocument := by
  have hname : shown irregular (.leaf (.scalar (.bool true))) = .ok (.scalar (.bool true)) := by
    cbv
  have htext : (Datum.scalar (.bool true)).text = "True" := by decide +kernel
  have hentry : Part.clusters.readEntry irregular (.ref 3) =
      .ok ((.str "True", .ref 5), irregular) := by
    refine bind_eq_ok_iff.2 ⟨_, hname, ?_⟩
    rw [htext]
    cbv
  have hentries : Part.clusters.readEntries irregular [.ref 3, .ref 4] =
      .ok ([(.str "True", .ref 5), (.str "True", .ref 6)], (irregular.alloc (.map [])).2) := by
    refine bind_eq_ok_iff.2 ⟨_, hentry, ?_⟩
    cbv
  have hitems : irregular.items? (.ref 2) = some [.ref 3, .ref 4] := rfl
  have hclusters : Part.clusters.read irregular irregularTop =
      .ok ([(.str "True", .ref 6)], (irregular.alloc (.map [])).2) :=
    (Part.read_of_items rfl hitems (by simp)).trans (bind_eq_ok_iff.2 ⟨_, hentries, by cbv⟩)
  refine bind_eq_ok_iff.2 ⟨_, hclusters, ?_⟩
  cbv

theorem isNormal_regular : IsNormal regular regularTop where
  sections p list hfield := by
    cases p with
    | clusters =>
        obtain rfl : Value.ref 1 = list := Option.some.inj hfield
        have hplain : Part.clusters.IsPlainList regular (.ref 1) [(.str "a", .ref 3)] :=
          ⟨[.ref 2], rfl, .cons ⟨_, rfl, .swap _ _ _⟩ .nil⟩
        refine ⟨_, hplain, ?_, ?_, ?_⟩
        · exact List.forall_mem_singleton.2 ⟨"a", rfl, by decide⟩
        · exact List.forall_mem_singleton.2 ⟨3, [], rfl, rfl⟩
        · decide
    | contexts | users => cases hfield
  current v hv := ⟨"", (Option.some.inj hv).symm⟩

/-- The section that is null becomes an empty list, once and for all; the mapping in normal form is
kept, and its keys also under another name. -/
theorem written_of_read_irregular :
    (∃ top h d' top' h', irregularDocument.toMapping = .ok (top, h) ∧
      top.map (·.1) = irregularTop.map (·.1) ∧
      (field? top Part.users.key).bind h.items? = some [] ∧
      ofMapping h top = .ok d' ∧ d'.view = irregularDocument.view ∧
      d'.toMapping = .ok (top', h') ∧ h'.SameEntries top top') ∧
    ∃ top h renamed top' h', regularDocument.toMapping = .ok (top, h) ∧
      h.SameEntries regularTop top ∧ rename regularDocument "b" = .ok renamed ∧
      renamed.toMapping = .ok (top', h') ∧ top'.map (·.1) = regularTop.map (·.1) := by
  constructor
  · obtain ⟨top, h, hmapping, -, hlabels, -, hsecond, -⟩ :=
      written_of_read (g := irregular) (v := .ref 0) (by decide) rfl ofMapping_irregular
    obtain ⟨d', top', h', hread, -, hview, hagain, -, hsame⟩ := hsecond
    refine ⟨top, h, d', top', h', hmapping, hlabels, ?_, hread, hview, hagain, hsame⟩
    cases hmapping
    rfl
  · obtain ⟨top, h, hmapping, -, -, -, -, hnormal, hrename⟩ :=
      written_of_read (g := regular) (v := .ref 0) (d := regularDocument) (by decide) rfl (by cbv)
    have hrenamed : rename regularDocument "b" =
        .ok { regularDocument with clusters := [(.str "b", .ref 4)] } := by cbv
    obtain ⟨top', h', hmapping', hlabels⟩ := hrename "b" _ hrenamed
    exact ⟨top, h, _, top', h', hmapping, hnormal isNormal_regular, hrenamed, hmapping', hlabels⟩

end Document

end KubeAtlas.Kubeconfig
