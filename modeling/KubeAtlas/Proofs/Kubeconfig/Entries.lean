import KubeAtlas.Proofs.Graph.Closed
import KubeAtlas.Proofs.Kubeconfig.Form
/-!
# The names of entries

The entries of a part are read one after the other, and a cell may be taken for the body of each.
The name of an entry does not depend on that: it is the text of the value under `name` in the graph
as it was loaded. So the names under which a list of entries is read can be told from the list
alone.
-/

namespace KubeAtlas.Kubeconfig

variable {g h k : Graph} {v entry : Value}

def entryName? (g : Graph) (entry : Value) : Option String :=
  (g.entries? entry).bind fun es => (present? g es "name").map g.text

theorem present?_of_extends {es : Entries} (hext : h.Extends g)
    (hes : ∀ e ∈ es, ∀ a ∈ e.2.ids, a < g.cells.size) (name : String) :
    present? h es name = present? g es name := by
  rw [present?, present?]
  cases hfield : field? es name with
  | none => rfl
  | some v =>
      obtain ⟨l, -, hmem⟩ := Table.exists_of_find? hfield
      rw [Option.filter_some, Option.filter_some,
        Graph.isTruthy_of_extends hext (hes (l, v) hmem)]

/-- Entries with names have one key if the names are one name. -/
theorem exists_key_iff {es : Entries} {names : List String}
    (hlabels : es.map (·.1) = names.map Label.str) :
    (∃ k : Key, ∀ e ∈ es, Labelled.key e.1 = k) ↔ ∃ name, ∀ m ∈ names, m = name := by
  have hall : ∀ k : Key, (∀ e ∈ es, Labelled.key e.1 = k) ↔ ∀ m ∈ names, Key.str m = k := by
    intro k
    have hmap : (∀ e ∈ es, Labelled.key e.1 = k) ↔ ∀ l ∈ es.map (·.1), Labelled.key l = k := by
      rw [List.forall_mem_map]
    rw [hmap, hlabels, List.forall_mem_map]
    rfl
  simp only [hall]
  constructor
  · rintro ⟨k, hk⟩
    cases names with
    | nil => exact ⟨"", by simp⟩
    | cons name rest =>
        refine ⟨name, fun m hm => ?_⟩
        have hsame : Key.str m = Key.str name := (hk m hm).trans (hk name List.mem_cons_self).symm
        simpa using hsame
  · rintro ⟨name, hname⟩
    exact ⟨.str name, fun m hm => congrArg Key.str (hname m hm)⟩

namespace Part

variable {p : Part}

theorem name_of_readEntry {e : Label × Value} (hg : g.Closed) (hext : h.Extends g)
    (hentry : ∀ a ∈ entry.ids, a < g.cells.size) (hread : p.readEntry h entry = .ok (e, k)) :
    ∃ name, entryName? g entry = some name ∧ e.1 = .str name := by
  rw [readEntry, Graph.entries?_of_extends hext hentry] at hread
  cases hes : g.entries? entry with
  | none =>
      rw [hes] at hread
      cases hread
  | some es =>
      have hvalues : ∀ e ∈ es, ∀ a ∈ e.2.ids, a < g.cells.size := fun e he =>
        (hg.entries hes he).2
      rw [hes, Option.bind_some, present?_of_extends hext hvalues] at hread
      cases hname : present? g es "name" with
      | none =>
          rw [hname] at hread
          cases hread
      | some v =>
          rw [hname] at hread
          obtain ⟨d, hshown, hread⟩ := bind_eq_ok_iff.1 hread
          obtain ⟨body, -, hread⟩ := bind_eq_ok_iff.1 hread
          cases hread
          obtain ⟨l, hmem⟩ := mem_of_present? hname
          have htree : d = g.unfold v :=
            (shown_eq_ok hshown).trans (Graph.unfold_of_extends hg hext (hvalues _ hmem))
          refine ⟨d.text, ?_, rfl⟩
          rw [entryName?, hes, Option.bind_some, hname, Option.map_some, Graph.text, htree]

theorem names_of_readEntries {items : List Value} {es : Entries} (hg : g.Closed)
    (hext : h.Extends g) (hitems : ∀ v ∈ items, ∀ a ∈ v.ids, a < g.cells.size)
    (hread : p.readEntries h items = .ok (es, k)) :
    ∃ names : List String, items.map (entryName? g) = names.map some ∧
      es.map (·.1) = names.map Label.str := by
  induction items generalizing h es with
  | nil =>
      cases hread
      exact ⟨[], rfl, rfl⟩
  | cons v rest ih =>
      obtain ⟨hv, hrest⟩ := List.forall_mem_cons.1 hitems
      rw [readEntries] at hread
      obtain ⟨⟨e, h'⟩, hentry, hread⟩ := bind_eq_ok_iff.1 hread
      obtain ⟨⟨fs, h''⟩, hlater, hread⟩ := bind_eq_ok_iff.1 hread
      cases hread
      have hgrown : h'.Extends g := (readEntry_eq_ok hentry).extended.trans hext
      obtain ⟨name, hname, hlabel⟩ := name_of_readEntry hg hext hv hentry
      obtain ⟨names, hnames, hlabels⟩ := ih hgrown hrest hlater
      refine ⟨name :: names, ?_, ?_⟩
      · rw [List.map_cons, List.map_cons, hname, hnames]
      · rw [List.map_cons, List.map_cons, hlabel, hlabels]

theorem read_of_items {top : Entries} {list : Value} {items : List Value}
    (hlist : field? top p.key = some list) (hitems : g.items? list = some items)
    (hne : items ≠ []) :
    p.read g top = p.readEntries g items >>= fun r => pure (Table.ofList r.1, r.2) := by
  obtain ⟨id, rfl, hcell⟩ := Graph.items?_eq_some_iff.1 hitems
  have htruthy : g.isTruthy (.ref id) = true := by
    rw [Graph.isTruthy, hcell, Cell.isEmpty, List.isEmpty_eq_false_iff.2 hne]
    rfl
  have hpresent : present? g top p.key = some (.ref id) := by
    rw [present?, hlist, Option.filter_some, if_pos htruthy]
  rw [read, hpresent]
  simp only [hitems]

end Part
end KubeAtlas.Kubeconfig
