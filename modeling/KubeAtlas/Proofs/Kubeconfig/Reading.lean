import KubeAtlas.Proofs.Kubeconfig.Entries
import KubeAtlas.Proofs.Kubeconfig.Layout
/-!
# Reading what was written

A part is written as a list of mappings, each with a name and a body, and such a list is read as the
entries it was written from. There is one difference: an empty body counts as absent, so that a
fresh one takes its place. `refresh` says what that makes of a table, and the round trip of a
document is the round trip of its parts, put together by what is found under the keys of the top
level.
-/

namespace KubeAtlas.Kubeconfig

variable {g h k : Graph} {d : Document} {es : Entries}

/-! ### Fresh bodies -/

/-- A body, or a fresh one in place of an empty one. -/
def refreshBody (g : Graph) (body : Value) : Value × Graph :=
  if g.isTruthy body then (body, g) else (.ref (g.alloc (.map [])).1, (g.alloc (.map [])).2)

def refresh (g : Graph) : Entries → Entries × Graph
  | [] => ([], g)
  | e :: rest =>
    let (body, g) := refreshBody g e.2
    let (es, g) := refresh g rest
    ((e.1, body) :: es, g)

theorem refreshBody_extends (g : Graph) (body : Value) : (refreshBody g body).2.Extends g := by
  rw [refreshBody]
  split
  · exact Graph.Extends.refl g
  · exact Graph.extends_alloc g _

theorem refresh_extends (g : Graph) (es : Entries) : (refresh g es).2.Extends g := by
  induction es generalizing g with
  | nil => exact Graph.Extends.refl g
  | cons e rest ih => exact (ih _).trans (refreshBody_extends g e.2)

theorem map_fst_refresh (g : Graph) (es : Entries) :
    (refresh g es).1.map (·.1) = es.map (·.1) := by
  induction es generalizing g with
  | nil => rfl
  | cons e rest ih => exact congrArg (e.1 :: ·) (ih _)

theorem keys_refresh (g : Graph) (es : Entries) :
    (Table.keys (refresh g es).1 : List Key) = Table.keys es := by
  have hlabels := congrArg (List.map Label.key) (map_fst_refresh g es)
  rw [List.map_map, List.map_map] at hlabels
  exact hlabels

def trees (g : Graph) (es : Entries) : List (Datum × Datum) :=
  es.map fun e => (e.1.datum, g.unfold e.2)

theorem unfold_of_empty {a : Nat} (hcell : g.cell a = .map []) : g.unfold (.ref a) = .map [] := by
  rw [Graph.unfold, Graph.unfoldBelow_of_notMem g _ List.not_mem_nil, hcell]
  rfl

theorem unfold_of_not_isTruthy {v : Value} (hv : g.IsMapping v) (hnot : g.isTruthy v = false) :
    g.unfold v = .map [] := by
  obtain ⟨id, es, rfl, hcell⟩ := hv
  rw [Graph.isTruthy, hcell, Cell.isEmpty, Bool.not_eq_false', List.isEmpty_iff] at hnot
  exact unfold_of_empty (hnot ▸ hcell)

theorem ids_lt_of_isMapping {v : Value} (hv : g.IsMapping v) : ∀ a ∈ v.ids, a < g.cells.size := by
  obtain ⟨id, es, rfl, hcell⟩ := hv
  intro a ha
  obtain rfl := List.mem_singleton.1 ha
  exact Graph.lt_size_of_cell hcell (by simp)

theorem trees_refresh (hg : g.Closed) (hes : ∀ e ∈ es, g.IsMapping e.2) (hh : h.Extends g)
    (hk : k.Extends (refresh h es).2) : trees k (refresh h es).1 = trees g es := by
  induction es generalizing h with
  | nil => rfl
  | cons e rest ih =>
      obtain ⟨he, hrest⟩ := List.forall_mem_cons.1 hes
      have hids := ids_lt_of_isMapping he
      have hbody : (refreshBody h e.2).2.Extends g := (refreshBody_extends h e.2).trans hh
      have hlater : k.Extends (refreshBody h e.2).2 := hk.trans (refresh_extends _ rest)
      refine congrArg₂ List.cons (congrArg (Prod.mk e.1.datum) ?_) (ih hrest hbody hk)
      have hsame : h.isTruthy e.2 = g.isTruthy e.2 := Graph.isTruthy_of_extends hh hids
      show k.unfold (refreshBody h e.2).1 = g.unfold e.2
      cases htruthy : g.isTruthy e.2 with
      | true =>
          rw [refreshBody, if_pos (hsame.trans htruthy)]
          exact Graph.unfold_of_extends hg (hlater.trans hbody) hids
      | false =>
          have hnot : ¬ h.isTruthy e.2 = true := by rw [hsame, htruthy]; simp
          rw [unfold_of_not_isTruthy he htruthy]
          rw [refreshBody, if_neg hnot] at hlater ⊢
          refine unfold_of_empty ((hlater.2 _ ?_).trans (Graph.cell_alloc_self h _))
          rw [Graph.size_alloc]
          exact Nat.lt_succ_self _

theorem shown_str (g : Graph) (name : String) : shown g (.str name) = .ok (.str name) := by
  rw [shown, Graph.unfold, Graph.unfoldBelow]
  rfl

/-! ### Parts -/

namespace Part

variable {p : Part} {item list : Value} {items : List Value} {top : Entries}

/-- An item that is the written form of an entry. -/
def IsWritten (p : Part) (g : Graph) (item : Value) (e : Label × Value) : Prop :=
  g.entries? item = some [(.str "name", .leaf e.1), (.str p.bodyKey, e.2)]

def IsListOf (p : Part) (g : Graph) (list : Value) (es : Entries) : Prop :=
  ∃ items, g.items? list = some items ∧ List.Forall₂ (p.IsWritten g) items es

theorem IsListOf.extend (hlist : p.IsListOf g list es) (hext : h.Extends g) :
    p.IsListOf h list es := by
  obtain ⟨items, hitems, hall⟩ := hlist
  exact ⟨items, hext.items? hitems, hall.imp fun _ _ => hext.entries?⟩

theorem writeEntries_isWritten (p : Part) (g : Graph) (es : Entries) :
    (p.writeEntries g es).2.Extends g ∧
      List.Forall₂ (p.IsWritten (p.writeEntries g es).2) (p.writeEntries g es).1 es := by
  induction es generalizing g with
  | nil => exact ⟨Graph.Extends.refl g, .nil⟩
  | cons e rest ih =>
      obtain ⟨hext, hall⟩ := ih (p.writeEntry g e).2
      have halloc : (p.writeEntry g e).2.Extends g := Graph.extends_alloc g _
      refine ⟨hext.trans halloc, .cons (hext.entries? ?_) hall⟩
      exact Graph.entries?_eq_some_iff.2 ⟨_, rfl, Graph.cell_alloc_self g _⟩

theorem write_isListOf (p : Part) (g : Graph) (es : Entries) :
    (p.write g es).2.Extends g ∧ p.IsListOf (p.write g es).2 (p.write g es).1 es := by
  obtain ⟨hext, hall⟩ := p.writeEntries_isWritten g es
  have halloc : (p.write g es).2.Extends (p.writeEntries g es).2 := Graph.extends_alloc _ _
  refine ⟨halloc.trans hext, (p.writeEntries g es).1, ?_, hall.imp fun _ _ => halloc.entries?⟩
  exact Graph.items?_eq_some_iff.2 ⟨_, rfl, Graph.cell_alloc_self _ _⟩

/-- An item that shows a name and a body, wherever they stand among its fields. -/
def Shows (p : Part) (g : Graph) (item : Value) (e : Label × Value) : Prop :=
  ∃ fields, g.entries? item = some fields ∧ field? fields "name" = some (.leaf e.1) ∧
    field? fields p.bodyKey = some e.2

theorem IsWritten.shows {e : Label × Value} (hitem : p.IsWritten g item e) : p.Shows g item e :=
  ⟨_, hitem, rfl, by cases p <;> rfl⟩

theorem Shows.extend {e : Label × Value} (hitem : p.Shows g item e) (hext : h.Extends g) :
    p.Shows h item e := by
  obtain ⟨fields, hfields, hname, hbody⟩ := hitem
  exact ⟨fields, hext.entries? hfields, hname, hbody⟩

theorem readEntry_of_shows {name : String} {body : Value} (hbody : g.IsMapping body)
    (hname : name ≠ "") (hitem : p.Shows g item (.str name, body)) :
    p.readEntry g item =
      .ok ((.str name, (refreshBody g body).1), (refreshBody g body).2) := by
  obtain ⟨fields, hfields, hlabel, hinner⟩ := hitem
  have hpresent : present? g fields "name" = some (.str name) := by
    rw [present?, hlabel, Option.filter_some, if_pos]
    simpa [Graph.isTruthy, Label.isTruthy, Scalar.isTruthy] using hname
  rw [readEntry, hfields, Option.bind_some, hpresent, Option.map_some]
  refine bind_eq_ok_iff.2 ⟨_, shown_str g name, ?_⟩
  obtain ⟨id, es, rfl, hcell⟩ := hbody
  rw [present?, hinner, Option.filter_some, refreshBody]
  cases htruthy : g.isTruthy (.ref id) with
  | true =>
      have hmapping : (g.entries? (.ref id)).isSome := by
        rw [Graph.entries?_eq_some_iff.2 ⟨id, rfl, hcell⟩]
        rfl
      rw [if_pos rfl, if_pos rfl]
      simp only [if_pos hmapping]
      rfl
  | false => rfl

theorem readEntries_of_shows (hall : List.Forall₂ (p.Shows g) items es)
    (hbodies : ∀ e ∈ es, g.IsMapping e.2) (hnames : ∀ e ∈ es, ∃ name, e.1 = .str name ∧ name ≠ "")
    (hext : h.Extends g) : p.readEntries h items = .ok (refresh h es) := by
  induction hall generalizing h with
  | nil => rfl
  | @cons item e items rest hitem hitems ih =>
      obtain ⟨hbody, hlaterBodies⟩ := List.forall_mem_cons.1 hbodies
      obtain ⟨⟨name, hlabel, hname⟩, hlaterNames⟩ := List.forall_mem_cons.1 hnames
      obtain ⟨l, body⟩ := e
      obtain rfl : l = .str name := hlabel
      have hfirst := readEntry_of_shows (hbody.extend hext) hname (hitem.extend hext)
      have hrest := ih hlaterBodies hlaterNames ((refreshBody_extends h body).trans hext)
      rw [readEntries]
      exact bind_eq_ok_iff.2 ⟨_, hfirst, bind_eq_ok_iff.2 ⟨_, hrest, rfl⟩⟩

/-- A list is read as what its items show, with fresh bodies for the empty ones. -/
theorem read_of_shows (hfield : field? top p.key = some list) (hitems : g.items? list = some items)
    (hall : List.Forall₂ (p.Shows g) items es) (hbodies : ∀ e ∈ es, g.IsMapping e.2)
    (hnames : ∀ e ∈ es, ∃ name, e.1 = .str name ∧ name ≠ "")
    (hdistinct : (Table.keys es : List Key).Nodup) (hext : h.Extends g) :
    p.read h top = .ok (refresh h es) := by
  have hlist := hext.items? hitems
  -- an empty list counts as absent, and is read as no entries either way
  by_cases hempty : items = []
  · subst hempty
    cases hall
    obtain ⟨id, rfl, hcell⟩ := Graph.items?_eq_some_iff.1 hlist
    have hfalsy : h.isTruthy (.ref id) = false := by rw [Graph.isTruthy, hcell]; rfl
    rw [read, present?, hfield, Option.filter_some, hfalsy]
    rfl
  · have hentries := readEntries_of_shows hall hbodies hnames hext
    rw [read_of_items hfield hlist hempty, hentries]
    refine bind_eq_ok_iff.2 ⟨_, rfl, ?_⟩
    have hnodup := keys_refresh h es ▸ hdistinct
    rw [Table.ofList_of_nodup hnodup]
    rfl

/-- What stands under the key of a part is its list, or nothing if it has no entries. -/
def StandsIn (p : Part) (g : Graph) (top es : Entries) : Prop :=
  match field? top p.key with
  | some list => p.IsListOf g list es
  | none => es = []

theorem read_of_standsIn (hstands : p.StandsIn g top es) (hbodies : ∀ e ∈ es, g.IsMapping e.2)
    (hnames : ∀ e ∈ es, ∃ name, e.1 = .str name ∧ name ≠ "")
    (hdistinct : (Table.keys es : List Key).Nodup) (hext : h.Extends g) :
    p.read h top = .ok (refresh h es) := by
  rw [StandsIn] at hstands
  cases hfield : field? top p.key with
  | none =>
      rw [hfield] at hstands
      subst hstands
      rw [read, present?, hfield]
      rfl
  | some list =>
      rw [hfield] at hstands
      obtain ⟨items, hitems, hall⟩ := hstands
      exact read_of_shows hfield hitems (hall.imp fun _ _ => IsWritten.shows) hbodies hnames
        hdistinct hext

end Part

/-! ### Documents -/

namespace Document

def foundKeys (d : Document) : List Key := d.keyOrder.filterMap Value.key?

theorem hadKey_iff {l : Label} : d.hadKey l = true ↔ l.key ∈ d.foundKeys := by
  simp [hadKey, foundKeys, Value.is]

/-- The list that a part is written as. The parts are written one after the other. -/
def partList (d : Document) : Part → Value
  | .clusters => (Part.clusters.write d.graph d.clusters).1
  | .contexts => (Part.contexts.write (Part.clusters.write d.graph d.clusters).2 d.contexts).1
  | .users => (Part.users.write (Part.contexts.write
      (Part.clusters.write d.graph d.clusters).2 d.contexts).2 d.users).1

theorem managed_fst (d : Document) : d.managed.1 =
    Part.all.map (fun p => (Label.str p.key, d.partList p)) ++
      [(.str currentContextKey,
        if d.managed.2.isTruthy d.currentContext then d.currentContext else .str "")] := rfl

/-- Each part is a list in the graph when all are written: what is written for one is kept by those
after it. -/
theorem managed_spec (d : Document) :
    d.managed.2.Extends d.graph ∧
      ∀ p : Part, p.IsListOf d.managed.2 (d.partList p) (d.entries p) := by
  obtain ⟨hext, hclusters⟩ := Part.clusters.write_isListOf d.graph d.clusters
  obtain ⟨hext', hcontexts⟩ := Part.contexts.write_isListOf
    (Part.clusters.write d.graph d.clusters).2 d.contexts
  obtain ⟨hext'', husers⟩ := Part.users.write_isListOf
    (Part.contexts.write (Part.clusters.write d.graph d.clusters).2 d.contexts).2 d.users
  refine ⟨hext''.trans (hext'.trans hext), ?_⟩
  rintro (_ | _ | _)
  exacts [(hclusters.extend hext').extend hext'', hcontexts.extend hext'', husers]

theorem nodup_keys_managed (d : Document) : (Table.keys d.managed.1 : List Key).Nodup := by
  rw [keys_managed]
  decide

theorem find?_written {l : Label} {v : Value} (hmem : (l, v) ∈ d.managed.1) :
    Table.find? l.key d.written.1 =
      if d.hadKey l || d.managed.2.isTruthy v then some v else none :=
  Table.find?_filter_of_mem (nodup_keys_managed d) hmem
    fun e => d.hadKey e.1 || d.managed.2.isTruthy e.2

theorem CarriesOthers.field? (hd : d.CarriesOthers) {name : String}
    (hmanaged : Key.str name ∈ managedKeys) (keys : List Label) :
    field? (arranged d.written.1 d.extra keys) name = Table.find? (Key.str name) d.written.1 := by
  have hnone : Key.str name ∉ (Table.keys d.extra : List Key) := fun hk => by
    have hfree := hd.unmanaged _ hk
    rw [isManaged_iff.2 hmanaged] at hfree
    cases hfree
  rw [Kubeconfig.field?, find?_arranged hd.apart, topValue?, Table.find?_eq_none_of_notMem hnone,
    Option.or_none]

theorem standsIn (hd : d.CarriesOthers) (keys : List Label) (p : Part) :
    p.StandsIn d.written.2 (arranged d.written.1 d.extra keys) (d.entries p) := by
  have hmem : (Label.str p.key, d.partList p) ∈ d.managed.1 := by
    rw [managed_fst]
    cases p <;> simp [Part.all]
  have hkey : Key.str p.key ∈ managedKeys := by cases p <;> decide
  rw [Part.StandsIn, hd.field? hkey]
  have hfind := find?_written hmem
  obtain ⟨items, hitems, hall⟩ := (managed_spec d).2 p
  by_cases hwritten : (d.hadKey (.str p.key) || d.managed.2.isTruthy (d.partList p)) = true
  · rw [if_pos hwritten] at hfind
    have hsame : Table.find? (Key.str p.key) d.written.1 = some (d.partList p) := hfind
    rw [hsame]
    exact ⟨items, hitems, hall⟩
  · rw [if_neg hwritten] at hfind
    have hnone : Table.find? (Key.str p.key) d.written.1 = none := hfind
    rw [hnone]
    obtain ⟨id, hid, hcell⟩ := Graph.items?_eq_some_iff.1 hitems
    rw [Bool.or_eq_true, not_or] at hwritten
    have hfalsy := hwritten.2
    rw [hid, Graph.isTruthy, hcell, Cell.isEmpty] at hfalsy
    obtain rfl : items = [] := by simpa using hfalsy
    exact List.forall₂_nil_left_iff.1 hall

def heldContext (d : Document) : Value :=
  if d.graph.isTruthy d.currentContext then d.currentContext else .null

def reread (d : Document) (g : Graph) (top : Entries) : Document :=
  let (clusters, g) := refresh g d.clusters
  let (contexts, g) := refresh g d.contexts
  let (users, g) := refresh g d.users
  ⟨g, clusters, contexts, users, d.heldContext,
    top.filter fun e => !isManaged (Labelled.key e.1), top.map fun e => .leaf e.1⟩

theorem WellFormed.isTruthy_currentContext (hd : d.WellFormed) (g : Graph) :
    g.isTruthy d.currentContext = d.graph.isTruthy d.currentContext := by
  rcases hd.current with hnull | ⟨name, hname⟩
  · rw [hnull]; rfl
  · rw [hname]; rfl

/-- The name of the context in use is written if it counts as present, and in its place an empty
name if the key was found. -/
theorem field?_currentContext (hd : d.WellFormed) (hothers : d.CarriesOthers) (keys : List Label) :
    field? (arranged d.written.1 d.extra keys) currentContextKey =
      if d.graph.isTruthy d.currentContext then some d.currentContext
      else if d.hadKey (.str currentContextKey) then some (.str "") else none := by
  have hmem : (Label.str currentContextKey,
      if d.graph.isTruthy d.currentContext then d.currentContext else .str "") ∈ d.managed.1 := by
    rw [managed_fst, hd.isTruthy_currentContext]
    exact List.mem_append_right _ (List.mem_singleton_self _)
  have hfind : Table.find? (Key.str currentContextKey) d.written.1 = _ := find?_written hmem
  rw [hothers.field? (by decide), hfind]
  by_cases htruthy : d.graph.isTruthy d.currentContext = true
  · rw [if_pos htruthy, hd.isTruthy_currentContext, htruthy, Bool.or_true, if_pos rfl, if_pos rfl]
  · have hempty : d.managed.2.isTruthy (.str "") = false := rfl
    rw [if_neg htruthy, if_neg htruthy, hempty, Bool.or_false]

theorem present?_currentContext (hd : d.WellFormed) (hothers : d.CarriesOthers) (g : Graph)
    (keys : List Label) :
    present? g (arranged d.written.1 d.extra keys) currentContextKey =
      if d.graph.isTruthy d.currentContext then some d.currentContext else none := by
  rw [present?, field?_currentContext hd hothers]
  by_cases htruthy : d.graph.isTruthy d.currentContext = true
  · rw [if_pos htruthy, if_pos htruthy, Option.filter_some, hd.isTruthy_currentContext,
      if_pos htruthy]
  · rw [if_neg htruthy, if_neg htruthy]
    split <;> rfl

theorem ofMapping_toMapping (hd : d.WellFormed) (hothers : d.CarriesOthers)
    (hnames : ∀ p, ∀ e ∈ d.entries p, e.1 ≠ .str "") (keys : List Label) :
    ofMapping d.written.2 (arranged d.written.1 d.extra keys) =
      .ok (d.reread d.written.2 (arranged d.written.1 d.extra keys)) := by
  have hpart : ∀ (p : Part) {h : Graph}, h.Extends d.written.2 →
      p.read h (arranged d.written.1 d.extra keys) = .ok (refresh h (d.entries p)) := by
    intro p h hext
    have hgraph := (managed_spec d).1
    refine Part.read_of_standsIn (standsIn hothers keys p)
      (fun e he => (hd.mappings p e he).extend hgraph) (fun e he => ?_) (hd.distinct p) hext
    obtain ⟨name, hname⟩ := hd.named p e he
    exact ⟨name, hname, fun hempty => hnames p e he (hempty ▸ hname)⟩
  rw [ofMapping]
  refine bind_eq_ok_iff.2 ⟨_, hpart .clusters (Graph.Extends.refl _), ?_⟩
  refine bind_eq_ok_iff.2 ⟨_, hpart .contexts (refresh_extends _ _), ?_⟩
  refine bind_eq_ok_iff.2 ⟨_, hpart .users ((refresh_extends _ _).trans (refresh_extends _ _)), ?_⟩
  refine bind_eq_ok_iff.2 ⟨d.heldContext, ?_, rfl⟩
  simp only [present?_currentContext hd hothers, heldContext]
  by_cases htruthy : d.graph.isTruthy d.currentContext = true
  · rw [if_pos htruthy, if_pos htruthy]
    rcases hd.current with hnull | ⟨name, hname⟩
    · rw [hnull] at htruthy
      cases htruthy
    · rw [hname]
      exact bind_eq_ok_iff.2 ⟨_, shown_str _ name, rfl⟩
  · rw [if_neg htruthy, if_neg htruthy]
    rfl

end Document
end KubeAtlas.Kubeconfig
