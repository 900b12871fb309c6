import KubeAtlas.Proofs.Kubeconfig.Form
import KubeAtlas.Proofs.Yaml.Survey
/-!
# What writing a document can fail over

Before a document is written, its parts become lists again and its keys are put in order. Nothing in
that can fail for a well-formed document, and no labels come in but text. What remains is writing
the value.
-/

namespace KubeAtlas.Kubeconfig

variable {g : Graph} {d : Document} {f : Failure} {P : Label → Prop}

namespace Part

theorem labels_writeEntry (p : Part) (htext : ∀ s, P (.str s)) (hg : g.All P) {e : Label × Value}
    (he : P e.1 ∧ e.2.All P) : (p.writeEntry g e).2.All P := by
  refine hg.alloc (List.forall_mem_cons.2 ⟨⟨htext _, he.1⟩, ?_⟩)
  exact List.forall_mem_singleton.2 ⟨htext _, he.2⟩

theorem labels_writeEntries (p : Part) (htext : ∀ s, P (.str s)) (hg : g.All P) {es : Entries}
    (hes : Entries.All P es) :
    (∀ v ∈ (p.writeEntries g es).1, v.All P) ∧ (p.writeEntries g es).2.All P := by
  induction es generalizing g with
  | nil => exact ⟨by simp [writeEntries], hg⟩
  | cons e rest ih =>
      obtain ⟨he, hrest⟩ := List.forall_mem_cons.1 hes
      obtain ⟨hvalues, hgraph⟩ := ih (p.labels_writeEntry htext hg he) hrest
      exact ⟨List.forall_mem_cons.2 ⟨trivial, hvalues⟩, hgraph⟩

theorem labels_write (p : Part) (htext : ∀ s, P (.str s)) (hg : g.All P) {es : Entries}
    (hes : Entries.All P es) : (p.write g es).1.All P ∧ (p.write g es).2.All P := by
  obtain ⟨hvalues, hgraph⟩ := p.labels_writeEntries htext hg hes
  exact ⟨trivial, hgraph.alloc hvalues⟩

end Part

namespace Document

theorem WellFormed.labels_entries (hd : d.WellFormed) (htext : ∀ s, P (.str s)) (p : Part) :
    Entries.All P (d.entries p) := by
  intro e he
  obtain ⟨name, hname⟩ := hd.named p e he
  obtain ⟨id, es, hbody, -⟩ := hd.mappings p e he
  rw [hname, hbody]
  exact ⟨htext name, trivial⟩

theorem WellFormed.labels_managed (hd : d.WellFormed) (htext : ∀ s, P (.str s))
    (hg : d.graph.All P) : Entries.All P d.managed.1 ∧ d.managed.2.All P := by
  obtain ⟨hclusters, hg⟩ := Part.clusters.labels_write htext hg (hd.labels_entries htext .clusters)
  obtain ⟨hcontexts, hg⟩ := Part.contexts.labels_write htext hg (hd.labels_entries htext .contexts)
  obtain ⟨husers, hg⟩ := Part.users.labels_write htext hg (hd.labels_entries htext .users)
  refine ⟨?_, hg⟩
  simp only [Entries.All, managed, List.forall_mem_cons]
  refine ⟨⟨htext _, hclusters⟩, ⟨htext _, hcontexts⟩, ⟨htext _, husers⟩, ⟨htext _, ?_⟩, by simp⟩
  split
  · next htruthy =>
      rcases hd.current with hnull | ⟨name, hname⟩
      · rw [hnull] at htruthy
        cases htruthy
      · rw [hname]
        exact htext name
  · exact htext ""

theorem WellFormed.labels_written (hd : d.WellFormed) (htext : ∀ s, P (.str s))
    (hg : d.graph.All P) : Entries.All P d.written.1 ∧ d.written.2.All P := by
  obtain ⟨hall, hg⟩ := hd.labels_managed htext hg
  exact ⟨fun e he => hall e (List.mem_filter.1 he).1, hg⟩

theorem arrange_labels (extra out left : Entries) {keys : List Value}
    (hkeys : ∀ v ∈ keys, ∃ l, v = .leaf l) :
    ∃ out' left', arrange extra out left keys = .ok (out', left') ∧
      ∀ P, Entries.All P extra → Entries.All P out → Entries.All P left →
        (∀ v ∈ keys, v.All P) → Entries.All P out' ∧ Entries.All P left' := by
  induction keys generalizing out left with
  | nil => exact ⟨out, left, rfl, fun _ _ hout hleft _ => ⟨hout, hleft⟩⟩
  | cons v rest ih =>
      obtain ⟨⟨l, rfl⟩, hrest⟩ := List.forall_mem_cons.1 hkeys
      rw [arrange]
      split
      · next w hw =>
          obtain ⟨out', left', hok, hlabels⟩ :=
            ih (Table.put l w out) (Table.erase l.key left) hrest
          refine ⟨out', left', hok, fun P hextra hout hleft hall => ?_⟩
          obtain ⟨hl, hall⟩ := List.forall_mem_cons.1 hall
          obtain ⟨a, -, hmem⟩ := Table.exists_of_find? hw
          exact hlabels P hextra (hout.put hl (hleft _ hmem).2)
            (fun e he => hleft e ((Table.sublist_erase _ _).mem he)) hall
      · split
        · next w hw =>
            obtain ⟨out', left', hok, hlabels⟩ := ih (Table.put l w out) left hrest
            refine ⟨out', left', hok, fun P hextra hout hleft hall => ?_⟩
            obtain ⟨hl, hall⟩ := List.forall_mem_cons.1 hall
            obtain ⟨a, -, hmem⟩ := Table.exists_of_find? hw
            exact hlabels P hextra (hout.put hl (hextra _ hmem).2) hleft hall
        · obtain ⟨out', left', hok, hlabels⟩ := ih out left hrest
          exact ⟨out', left', hok, fun P hextra hout hleft hall =>
            hlabels P hextra hout hleft (List.forall_mem_cons.1 hall).2⟩

theorem labels_addMissing {entries out : Entries} (hentries : Entries.All P entries)
    (hout : Entries.All P out) : Entries.All P (addMissing entries out) := by
  rw [addMissing]
  induction entries generalizing out with
  | nil => exact hout
  | cons e rest ih =>
      obtain ⟨he, hrest⟩ := List.forall_mem_cons.1 hentries
      rw [List.foldl_cons]
      split
      · exact ih hrest hout
      · exact ih hrest (hout.put he.1 he.2)

theorem labels_putAll {es t : Entries} (hes : Entries.All P es) (ht : Entries.All P t) :
    Entries.All P (Table.putAll es t) := by
  intro e he
  obtain ⟨⟨w, hw⟩, ⟨a, ha⟩⟩ := Table.mem_putAll he
  have hboth : Entries.All P (es ++ t) := List.forall_mem_append.2 ⟨hes, ht⟩
  exact ⟨(hboth _ hw).1, (hboth _ ha).2⟩

theorem WellFormed.toMapping (hd : d.WellFormed) :
    ∃ top g, d.toMapping = .ok (top, g) ∧
      ∀ P : Label → Prop, (∀ s, P (.str s)) → d.All P → Entries.All P top ∧ g.All P := by
  obtain ⟨out, left, hok, hlabels⟩ := arrange_labels d.extra [] d.written.1 hd.labels
  refine ⟨Table.putAll left (addMissing d.extra out), d.written.2, ?_, fun P htext hall => ?_⟩
  · rw [Document.toMapping]
    exact bind_eq_ok_iff.2 ⟨_, hok, rfl⟩
  · obtain ⟨hwritten, hg⟩ := hd.labels_written htext hall.graph
    obtain ⟨hout, hleft⟩ := hlabels P hall.extra Entries.all_nil hwritten hall.keys
    exact ⟨labels_putAll hleft (labels_addMissing hall.extra hout), hg⟩

end Document

theorem serialize_failsAt (hd : d.WellFormed) (htext : ∀ s, P (.str s)) (hall : d.All P)
    (hserialize : serialize d = .error f) :
    (∃ e, Yaml.Survey.FailsAt P (.malformed e) ∧ f = .format (.unserializable e)) ∨
      ∃ fault, Yaml.Survey.FailsAt P (.fault fault) ∧ f = .fault fault := by
  obtain ⟨top, g, hok, hlabels⟩ := hd.toMapping
  obtain ⟨htop, hg⟩ := hlabels P htext hall
  have hdocument : (g.alloc (.map top)).2.All P := hg.alloc htop
  rw [serialize] at hserialize
  rcases bind_eq_error_iff.1 hserialize with herror | ⟨⟨top', g'⟩, hok', hwrite⟩
  · rw [hok] at herror
    cases herror
  · obtain ⟨rfl, rfl⟩ := Prod.mk.inj (Except.ok.inj (hok'.symm.trans hok))
    simp only at hwrite
    split at hwrite
    · cases hwrite
    · next e he =>
        cases hwrite
        exact .inl ⟨e, Yaml.write_failsAt he hdocument trivial, rfl⟩
    · next fault hfault =>
        cases hwrite
        exact .inr ⟨fault, Yaml.write_failsAt hfault hdocument trivial, rfl⟩

/-- A well-formed document that cannot be written holds something without a written form, or a long
integer. -/
theorem serialize_eq_error (hd : d.WellFormed) (hserialize : serialize d = .error f) :
    f.IsOver (d.All Label.IsShowable) := by
  have hanywhere : d.All fun _ => True :=
    ⟨fun id => Cell.all_true _, fun e _ => ⟨trivial, Value.all_true _⟩, fun v _ => Value.all_true v⟩
  rcases serialize_failsAt hd (fun _ => trivial) hanywhere hserialize with
    ⟨e, -, rfl⟩ | ⟨fault, ⟨s, l, -, hl⟩, rfl⟩
  · exact .inl ⟨_, rfl⟩
  · rcases Yaml.Survey.label_eq_error l hl with ⟨m, hm⟩ | ⟨hnumber, -⟩
    · cases hm
    · cases hnumber
      refine .inr ⟨rfl, fun hshow => ?_⟩
      rcases serialize_failsAt hd Label.isShowable_str hshow hserialize with
        ⟨e, -, hf⟩ | ⟨fault, ⟨s, l, hl, herror⟩, hf⟩
      · cases hf
      · cases hf
        rcases Yaml.Survey.label_eq_error l herror with ⟨m, hm⟩ | ⟨-, hnot⟩
        · cases hm
        · exact hnot hl

end KubeAtlas.Kubeconfig
