import KubeAtlas.Kubeconfig.Text
import KubeAtlas.Proofs.Except
import KubeAtlas.Proofs.Graph.Showable
import KubeAtlas.Proofs.Table
/-!
# The form of a document

A document that was read has text for names, each name once in its part, a mapping for every body,
and labels for the keys of its top level. `WellFormed` says so. It is what the operations on
documents rely on: they meet no value of the wrong kind in a well-formed document, so that they fail
only for its form or for a scalar in it.

Reading goes through three parts one after the other and takes cells on the way. So each lemma below
says of a part what its entries are in the graph after it, and that this graph extends the one
before.
-/

namespace KubeAtlas.Kubeconfig

/-- What a document is relied on for. -/
structure Document.WellFormed (d : Document) : Prop where
  named : ∀ p, ∀ e ∈ d.entries p, ∃ name, e.1 = .str name
  distinct : ∀ p, (Table.keys (d.entries p) : List Key).Nodup
  mappings : ∀ p, ∀ e ∈ d.entries p, d.graph.IsMapping e.2
  current : d.currentContext = .null ∨ ∃ name, d.currentContext = .str name
  labels : ∀ v ∈ d.keyOrder, ∃ l, v = .leaf l

variable {P : Label → Prop}

def Entries.All (P : Label → Prop) (es : Entries) : Prop := ∀ e ∈ es, P e.1 ∧ e.2.All P

theorem Entries.all_nil : Entries.All P [] := by simp [Entries.All]

theorem Entries.All.put {es : Entries} (hes : Entries.All P es) {l : Label} {v : Value}
    (hl : P l) (hv : v.All P) : Entries.All P (Table.put l v es) := by
  intro e he
  obtain ⟨hlabel, hvalue⟩ := Table.mem_put he
  constructor
  · rcases hlabel with rfl | ⟨w, hw⟩
    · exact hl
    · exact (hes _ hw).1
  · rcases hvalue with rfl | ⟨b, hb⟩
    · exact hv
    · exact (hes _ hb).2

/-- A document all of whose labels have some property. Names are left out: they are text. -/
structure Document.All (P : Label → Prop) (d : Document) : Prop where
  graph : d.graph.All P
  extra : Entries.All P d.extra
  keys : ∀ v ∈ d.keyOrder, v.All P

/-- A failure over the form of a document, or over an integer that a graph holds. -/
def Failure.IsOver (f : Failure) (shows : Prop) : Prop :=
  (∃ e, f = .format e) ∨ f = .fault .number ∧ ¬ shows

variable {g h : Graph} {v : Value} {f : Failure}

theorem Failure.IsOver.mono {p q : Prop} (hf : f.IsOver p) (hqp : q → p) : f.IsOver q :=
  hf.imp_right (And.imp_right (mt hqp))

theorem shown_eq_ok {d : Datum} (hshown : shown g v = .ok d) : d = g.unfold v := by
  rw [shown] at hshown
  split at hshown
  · exact (Except.ok.inj hshown).symm
  · cases hshown

theorem shown_eq_error (hshown : shown g v = .error f) :
    f = .fault .number ∧ ¬ (g.unfold v).isShowable = true := by
  rw [shown] at hshown
  split at hshown
  · cases hshown
  · next hnot => exact ⟨(Except.error.inj hshown).symm, hnot⟩

theorem mem_of_present? {es : Entries} {name : String} (hv : present? g es name = some v) :
    ∃ l, (l, v) ∈ es := by
  rw [present?, Option.filter_eq_some_iff, field?] at hv
  obtain ⟨l, -, hmem⟩ := Table.exists_of_find? hv.1
  exact ⟨l, hmem⟩

/-! ### Parts -/

namespace Part

/-- What reading entries gives: entries with names and mappings, in a graph that extends the one
before. -/
structure Reads (g : Graph) (es : Entries) (h : Graph) : Prop where
  extended : h.Extends g
  named : ∀ e ∈ es, ∃ name, e.1 = .str name
  mappings : ∀ e ∈ es, h.IsMapping e.2
  labels : ∀ P, g.All P → h.All P

theorem Reads.showable {es : Entries} (hes : Reads g es h) (hg : g.IsShowable) : h.IsShowable :=
  Graph.isShowable_iff.2 (hes.labels _ (Graph.isShowable_iff.1 hg))

theorem readEntry_eq_ok {p : Part} {e : Label × Value} (hread : p.readEntry g v = .ok (e, h)) :
    Reads g [e] h := by
  rw [readEntry] at hread
  split at hread
  · cases hread
  · next es name hname =>
      obtain ⟨d, -, hread⟩ := bind_eq_ok_iff.1 hread
      obtain ⟨⟨body, k⟩, hbody, hread⟩ := bind_eq_ok_iff.1 hread
      cases hread
      split at hbody
      · cases hbody
        refine ⟨Graph.extends_alloc g _, by simp, ?_,
          fun P hg => hg.alloc (Cell.all_of_isEmpty rfl)⟩
        rw [List.forall_mem_singleton]
        exact ⟨_, [], rfl, Graph.cell_alloc_self g _⟩
      · split at hbody
        · next hmapping =>
            cases hbody
            refine ⟨Graph.Extends.refl g, by simp, ?_, fun _ => id⟩
            rw [List.forall_mem_singleton]
            exact Graph.isMapping_of_isSome hmapping
        · cases hbody

theorem readEntry_eq_error {p : Part} (hread : p.readEntry g v = .error f) :
    f.IsOver g.IsShowable := by
  rw [readEntry] at hread
  split at hread
  · cases hread
    exact .inl ⟨_, rfl⟩
  · next es name hname =>
      rcases bind_eq_error_iff.1 hread with hshown | ⟨d, -, hread⟩
      · obtain ⟨rfl, hnot⟩ := shown_eq_error hshown
        refine .inr ⟨rfl, fun hg => hnot (Graph.isShowable_unfold hg ?_)⟩
        obtain ⟨es, hes, hpresent⟩ := Option.bind_eq_some_iff.1 hname
        obtain ⟨value, hvalue, hsame⟩ := Option.map_eq_some_iff.1 hpresent
        obtain ⟨rfl, rfl⟩ := Prod.mk.inj hsame
        obtain ⟨l, hmem⟩ := mem_of_present? hvalue
        rw [Value.isShowable_iff]
        exact ((Graph.isShowable_iff.1 hg).entries hes _ hmem).2
      · rcases bind_eq_error_iff.1 hread with hbody | ⟨_, -, hread⟩
        · split at hbody
          · cases hbody
          · split at hbody
            · cases hbody
            · cases hbody
              exact .inl ⟨_, rfl⟩
        · cases hread

theorem Reads.cons {e : Label × Value} {es : Entries} {k : Graph} (hfirst : Reads g [e] h)
    (hrest : Reads h es k) : Reads g (e :: es) k where
  extended := hrest.extended.trans hfirst.extended
  named := List.forall_mem_cons.2 ⟨hfirst.named e List.mem_cons_self, hrest.named⟩
  mappings := List.forall_mem_cons.2
    ⟨(hfirst.mappings e List.mem_cons_self).extend hrest.extended, hrest.mappings⟩
  labels P hg := hrest.labels P (hfirst.labels P hg)

theorem reads_nil (g : Graph) : Reads g [] g :=
  ⟨Graph.Extends.refl g, by simp, by simp, fun _ => id⟩

theorem readEntries_eq_ok {p : Part} {vs : List Value} {es : Entries}
    (hread : p.readEntries g vs = .ok (es, h)) : Reads g es h := by
  induction vs generalizing g es with
  | nil =>
      cases hread
      exact reads_nil _
  | cons v rest ih =>
      rw [readEntries] at hread
      obtain ⟨⟨e, k⟩, hentry, hread⟩ := bind_eq_ok_iff.1 hread
      obtain ⟨⟨es, k⟩, hrest, hread⟩ := bind_eq_ok_iff.1 hread
      cases hread
      exact (readEntry_eq_ok hentry).cons (ih hrest)

theorem readEntries_eq_error {p : Part} {vs : List Value} (hread : p.readEntries g vs = .error f) :
    f.IsOver g.IsShowable := by
  induction vs generalizing g with
  | nil => cases hread
  | cons v rest ih =>
      rw [readEntries] at hread
      rcases bind_eq_error_iff.1 hread with hentry | ⟨⟨e, k⟩, hentry, hread⟩
      · exact readEntry_eq_error hentry
      · rcases bind_eq_error_iff.1 hread with hrest | ⟨_, -, hread⟩
        · exact (ih hrest).mono (readEntry_eq_ok hentry).showable
        · cases hread

theorem Reads.ofList {es : Entries} (hes : Reads g es h) : Reads g (Table.ofList es) h where
  extended := hes.extended
  named e he := (Table.mem_ofList he).1.elim fun body hmem => hes.named (e.1, body) hmem
  mappings e he := (Table.mem_ofList he).2.elim fun name hmem => hes.mappings (name, e.2) hmem
  labels := hes.labels

theorem read_eq_ok {p : Part} {top es : Entries} (hread : p.read g top = .ok (es, h)) :
    Reads g es h ∧ (Table.keys es : List Key).Nodup := by
  rw [read] at hread
  split at hread
  · cases hread
    exact ⟨reads_nil g, List.nodup_nil⟩
  · split at hread
    · cases hread
    · obtain ⟨⟨es, k⟩, hentries, hread⟩ := bind_eq_ok_iff.1 hread
      cases hread
      exact ⟨(readEntries_eq_ok hentries).ofList, Table.nodup_keys_ofList es⟩

theorem read_eq_error {p : Part} {top : Entries} (hread : p.read g top = .error f) :
    f.IsOver g.IsShowable := by
  rw [read] at hread
  split at hread
  · cases hread
  · split at hread
    · cases hread
      exact .inl ⟨_, rfl⟩
    · rcases bind_eq_error_iff.1 hread with hentries | ⟨_, -, hread⟩
      · exact readEntries_eq_error hentries
      · cases hread

end Part

/-! ### Documents -/

namespace Document

theorem ofMapping_parts {top : Entries} {d : Document} (hread : ofMapping g top = .ok d) :
    ∃ g₁ g₂, Part.clusters.read g top = .ok (d.clusters, g₁) ∧
      Part.contexts.read g₁ top = .ok (d.contexts, g₂) ∧
      Part.users.read g₂ top = .ok (d.users, d.graph) ∧
      (present? d.graph top currentContextKey = none ∧ d.currentContext = .null ∨
        ∃ v, present? d.graph top currentContextKey = some v ∧
          d.currentContext = .str (d.graph.unfold v).text) ∧
      d.extra = top.filter (fun e => !isManaged (Labelled.key e.1)) ∧
      d.keyOrder = top.map fun e => .leaf e.1 := by
  rw [ofMapping] at hread
  obtain ⟨⟨clusters, g₁⟩, hclusters, hread⟩ := bind_eq_ok_iff.1 hread
  obtain ⟨⟨contexts, g₂⟩, hcontexts, hread⟩ := bind_eq_ok_iff.1 hread
  obtain ⟨⟨users, g₃⟩, husers, hread⟩ := bind_eq_ok_iff.1 hread
  obtain ⟨current, hcurrent, hread⟩ := bind_eq_ok_iff.1 hread
  cases hread
  refine ⟨g₁, g₂, hclusters, hcontexts, husers, ?_, rfl, rfl⟩
  split at hcurrent
  · next v hv =>
      obtain ⟨name, hshown, hcurrent⟩ := bind_eq_ok_iff.1 hcurrent
      cases hcurrent
      exact .inr ⟨v, hv, by rw [shown_eq_ok hshown]⟩
  · next habsent =>
      cases hcurrent
      exact .inl ⟨habsent, rfl⟩

theorem ofMapping_part {top : Entries} {d : Document} (hread : ofMapping g top = .ok d)
    (p : Part) :
    ∃ h k, h.Extends g ∧ p.read h top = .ok (d.entries p, k) ∧ d.graph.Extends k := by
  obtain ⟨g₁, g₂, hclusters, hcontexts, husers, -⟩ := ofMapping_parts hread
  have hfirst := (Part.read_eq_ok hclusters).1.extended
  have hsecond := (Part.read_eq_ok hcontexts).1.extended
  have hthird := (Part.read_eq_ok husers).1.extended
  cases p with
  | clusters => exact ⟨_, _, Graph.Extends.refl g, hclusters, hthird.trans hsecond⟩
  | contexts => exact ⟨_, _, hfirst, hcontexts, hthird⟩
  | users => exact ⟨_, _, hsecond.trans hfirst, husers, Graph.Extends.refl _⟩

theorem ofMapping_extends {top : Entries} {d : Document} (hread : ofMapping g top = .ok d) :
    d.graph.Extends g := by
  obtain ⟨h, k, hext, hclusters, hgraph⟩ := ofMapping_part hread .clusters
  exact (hgraph.trans (Part.read_eq_ok hclusters).1.extended).trans hext

theorem ofMapping_eq_ok {top : Entries} {d : Document} (hread : ofMapping g top = .ok d) :
    d.WellFormed ∧ ∀ P, g.All P → Entries.All P top → d.All P := by
  obtain ⟨g₁, g₂, hclusters, hcontexts, husers, hcurrent, hextra, horder⟩ := ofMapping_parts hread
  obtain ⟨hclusters, hdistinct⟩ := Part.read_eq_ok hclusters
  obtain ⟨hcontexts, hdistinct'⟩ := Part.read_eq_ok hcontexts
  obtain ⟨husers, hdistinct''⟩ := Part.read_eq_ok husers
  constructor
  · constructor
    case named =>
      rintro (_ | _ | _)
      exacts [hclusters.named, hcontexts.named, husers.named]
    case distinct =>
      rintro (_ | _ | _)
      exacts [hdistinct, hdistinct', hdistinct'']
    case mappings =>
      rintro (_ | _ | _) e he
      · exact ((hclusters.mappings e he).extend hcontexts.extended).extend husers.extended
      · exact (hcontexts.mappings e he).extend husers.extended
      · exact husers.mappings e he
    case current => exact hcurrent.imp And.right fun ⟨_, _, hname⟩ => ⟨_, hname⟩
    case labels =>
      rw [horder]
      intro v hv
      obtain ⟨e, -, rfl⟩ := List.mem_map.1 hv
      exact ⟨e.1, rfl⟩
  · intro P hg htop
    constructor
    case graph => exact husers.labels P (hcontexts.labels P (hclusters.labels P hg))
    case extra => exact hextra ▸ fun e he => htop e (List.mem_filter.1 he).1
    case keys =>
      rw [horder]
      intro v hv
      obtain ⟨e, he, rfl⟩ := List.mem_map.1 hv
      exact (htop e he).1

theorem ofMapping_eq_error {top : Entries} (hread : ofMapping g top = .error f)
    (htop : g.All Label.IsShowable → Entries.All Label.IsShowable top) : f.IsOver g.IsShowable := by
  rw [ofMapping] at hread
  rcases bind_eq_error_iff.1 hread with hclusters | ⟨⟨clusters, g₁⟩, hclusters, hread⟩
  · exact Part.read_eq_error hclusters
  have hshow₁ := (Part.read_eq_ok hclusters).1.showable
  rcases bind_eq_error_iff.1 hread with hcontexts | ⟨⟨contexts, g₂⟩, hcontexts, hread⟩
  · exact (Part.read_eq_error hcontexts).mono hshow₁
  have hshow₂ := fun hg => (Part.read_eq_ok hcontexts).1.showable (hshow₁ hg)
  rcases bind_eq_error_iff.1 hread with husers | ⟨⟨users, g₃⟩, husers, hread⟩
  · exact (Part.read_eq_error husers).mono hshow₂
  have hshow₃ := fun hg => (Part.read_eq_ok husers).1.showable (hshow₂ hg)
  rcases bind_eq_error_iff.1 hread with hcurrent | ⟨current, -, hread⟩
  · split at hcurrent
    · next v hv =>
        rcases bind_eq_error_iff.1 hcurrent with hshown | ⟨_, -, hcurrent⟩
        · obtain ⟨rfl, hnot⟩ := shown_eq_error hshown
          obtain ⟨l, hmem⟩ := mem_of_present? hv
          have hvalue (hg : g.IsShowable) : v.IsShowable :=
            v.isShowable_iff.2 (htop (Graph.isShowable_iff.1 hg) _ hmem).2
          exact .inr ⟨rfl, fun hg => hnot (Graph.isShowable_unfold (hshow₃ hg) (hvalue hg))⟩
        · cases hcurrent
    · cases hcurrent
  · cases hread

end Document

theorem parse_of_entries {bytes : List UInt8} {top : Entries}
    (hload : Yaml.loadBytes bytes = .ok (v, g)) (htop : g.entries? v = some top) :
    parse bytes = Document.ofMapping g top := by
  obtain ⟨id, rfl, -⟩ := Graph.entries?_eq_some_iff.1 htop
  rw [parse, hload]
  simp only [htop]

/-- A document that was read is well-formed, and says nothing that was not loaded. -/
theorem parse_eq_ok {bytes : List UInt8} {d : Document} (hparse : parse bytes = .ok d) :
    d.WellFormed ∧ ∃ v g, Yaml.loadBytes bytes = .ok (v, g) ∧ ∀ P, g.All P → d.All P := by
  rw [parse] at hparse
  split at hparse
  · cases hparse
  · cases hparse
  · next v g hload =>
      split at hparse
      · obtain ⟨hform, hlabels⟩ := Document.ofMapping_eq_ok hparse
        exact ⟨hform, _, g, hload, fun P hg => hlabels P hg Entries.all_nil⟩
      · split at hparse
        · next top htop =>
            obtain ⟨hform, hlabels⟩ := Document.ofMapping_eq_ok hparse
            exact ⟨hform, v, g, hload, fun P hg => hlabels P hg (hg.entries htop)⟩
        · cases hparse

/-- A document that cannot be read has not the form of one, or a scalar that does not fit its tag,
or a long integer where a text is wanted. -/
theorem parse_eq_error {bytes : List UInt8} (hparse : parse bytes = .error f) :
    (∃ fault, Yaml.loadBytes bytes = .error (.fault fault) ∧ f = .fault fault) ∨
      f.IsOver (∀ v g, Yaml.loadBytes bytes = .ok (v, g) → g.IsShowable) := by
  rw [parse] at hparse
  split at hparse
  · cases hparse
    exact .inr (.inl ⟨_, rfl⟩)
  · next fault hload =>
      cases hparse
      exact .inl ⟨fault, hload, rfl⟩
  · next v g hload =>
      refine .inr (Failure.IsOver.mono ?_ fun hall => hall v g hload)
      split at hparse
      · exact Document.ofMapping_eq_error hparse fun _ => Entries.all_nil
      · split at hparse
        · next top htop => exact Document.ofMapping_eq_error hparse fun hg => hg.entries htop
        · cases hparse
          exact .inl ⟨_, rfl⟩

end KubeAtlas.Kubeconfig
