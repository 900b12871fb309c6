import KubeAtlas.Proofs.Kubeconfig.Reading
/-!
# Documents there and back

A document that is built into a mapping and read again is the same document, whatever the keys that
it was found with: they may be repeated, unknown or missing. The order of the keys in the mapping is
what the keys that were found ask for, as far as they can, and a part that was not there before
comes last, if it has entries at all.
-/

namespace KubeAtlas.Kubeconfig

variable {d : Document} {g h : Graph}

theorem Part.IsListOf.isTruthy {p : Part} {list : Value} {es : Entries}
    (hlist : p.IsListOf g list es) : g.isTruthy list = !es.isEmpty := by
  obtain ⟨items, hitems, hall⟩ := hlist
  obtain ⟨id, rfl, hcell⟩ := Graph.items?_eq_some_iff.1 hitems
  rw [Graph.isTruthy, hcell, Cell.isEmpty]
  cases hall <;> rfl

namespace Document

structure IsClosed (d : Document) : Prop where
  graph : d.graph.Closed
  extra : ∀ e ∈ d.extra, ∀ a ∈ e.2.ids, a < d.graph.cells.size

/-- The managed keys under which the document has something. -/
def sections (d : Document) : List Key :=
  (Part.all.filter fun p => !(d.entries p).isEmpty).map (fun p => Key.str p.key) ++
    if d.graph.isTruthy d.currentContext then [Key.str currentContextKey] else []

/-! ### The keys -/

theorem sections_eq (hd : d.WellFormed) :
    (Table.keys (d.managed.1.filter fun e => d.managed.2.isTruthy e.2) : List Key) =
      d.sections := by
  have hparts : ∀ p : Part, d.managed.2.isTruthy (d.partList p) = !(d.entries p).isEmpty :=
    fun p => ((managed_spec d).2 p).isTruthy
  rw [managed_fst, List.filter_append, Table.keys_append, List.filter_map, sections,
    hd.isTruthy_currentContext]
  congr 1
  · rw [Table.keys, List.map_map]
    simp only [Function.comp_def, hparts]
    rfl
  · by_cases htruthy : d.graph.isTruthy d.currentContext = true
    · simp only [if_pos htruthy, List.filter_cons, hd.isTruthy_currentContext, List.filter_nil]
      rfl
    · simp only [if_neg htruthy]
      rfl

theorem keys_written_filter (hd : d.WellFormed) :
    (Table.keys d.written.1 : List Key).filter (· ∉ d.foundKeys) =
      d.sections.filter (· ∉ d.foundKeys) := by
  have hwritten : d.written.1 =
      d.managed.1.filter fun e => d.hadKey e.1 || d.managed.2.isTruthy e.2 := rfl
  rw [← sections_eq hd, hwritten, Table.keys, Table.keys, List.filter_map, List.filter_map,
    List.filter_filter, List.filter_filter]
  congr 1
  refine List.filter_congr fun e _ => ?_
  by_cases hfound : e.1.key ∈ d.foundKeys
  · simp [Labelled.key, hfound]
  · have hnot : d.hadKey e.1 = false := Bool.eq_false_iff.2 (mt hadKey_iff.1 hfound)
    rw [hnot, Bool.false_or]

theorem isSome_topValue? {k : Key} (hk : k ∈ d.foundKeys) :
    (topValue? d.written.1 d.extra k).isSome =
      (isManaged k || decide (k ∈ (Table.keys d.extra : List Key))) := by
  rw [topValue?, Option.isSome_or, Bool.eq_iff_iff, Bool.or_eq_true, Bool.or_eq_true,
    decide_eq_true_eq, ← Table.mem_keys_iff, ← Table.mem_keys_iff]
  refine or_congr_left' fun _ => ⟨fun hmem => ?_, fun hmanaged => ?_⟩
  · exact isManaged_iff.2 ((keys_written_sublist d).subset hmem)
  · have hmem := isManaged_iff.1 hmanaged
    rw [← keys_managed d] at hmem
    obtain ⟨⟨l, v⟩, hentry, rfl⟩ := List.mem_map.1 hmem
    refine (Table.mem_keys_iff _ _).2 ?_
    have hfind := find?_written hentry
    rw [hadKey_iff.2 hk, Bool.true_or, if_pos rfl] at hfind
    exact Option.isSome_iff_exists.2 ⟨v, hfind⟩

theorem WellFormed.exists_labels (hd : d.WellFormed) :
    ∃ keys : List Label, d.keyOrder = keys.map Value.leaf ∧ d.foundKeys = keys.map Label.key := by
  have hall : ∀ vs : List Value, (∀ v ∈ vs, ∃ l, v = .leaf l) →
      ∃ keys : List Label, vs = keys.map Value.leaf := by
    intro vs
    induction vs with
    | nil => exact fun _ => ⟨[], rfl⟩
    | cons v rest ih =>
        intro hvs
        obtain ⟨⟨l, rfl⟩, hrest⟩ := List.forall_mem_cons.1 hvs
        obtain ⟨keys, rfl⟩ := ih hrest
        exact ⟨l :: keys, rfl⟩
  obtain ⟨keys, horder⟩ := hall d.keyOrder hd.labels
  refine ⟨keys, horder, ?_⟩
  rw [foundKeys, horder, List.filterMap_map]
  exact congrFun List.filterMap_eq_map keys

/-! ### The contents -/

theorem reread_part (g : Graph) (d : Document) (top : Entries) (p : Part) :
    ∃ h, h.Extends g ∧ (d.reread g top).entries p = (refresh h (d.entries p)).1 ∧
      (d.reread g top).graph.Extends (refresh h (d.entries p)).2 := by
  have hclusters := refresh_extends g d.clusters
  have hcontexts := refresh_extends (refresh g d.clusters).2 d.contexts
  have husers := refresh_extends (refresh (refresh g d.clusters).2 d.contexts).2 d.users
  cases p with
  | clusters => exact ⟨_, Graph.Extends.refl g, rfl, husers.trans hcontexts⟩
  | contexts => exact ⟨_, hclusters, rfl, husers⟩
  | users => exact ⟨_, hcontexts.trans hclusters, rfl, Graph.Extends.refl _⟩

theorem trees_reread (hclosed : d.graph.Closed) (hd : d.WellFormed) (hg : g.Extends d.graph)
    (top : Entries) (p : Part) :
    trees (d.reread g top).graph ((d.reread g top).entries p) = trees d.graph (d.entries p) := by
  obtain ⟨h, hext, hentries, hgraph⟩ := reread_part g d top p
  rw [hentries]
  exact trees_refresh hclosed (hd.mappings p) (hext.trans hg) hgraph

theorem reread_extends (g : Graph) (d : Document) (top : Entries) :
    (d.reread g top).graph.Extends g :=
  ((refresh_extends _ d.users).trans (refresh_extends _ d.contexts)).trans
    (refresh_extends g d.clusters)

theorem WellFormed.heldContext (hd : d.WellFormed) :
    d.heldContext = if d.currentContext.is (.str "") then .null else d.currentContext := by
  rw [Document.heldContext]
  rcases hd.current with hnull | ⟨name, hname⟩
  · rw [hnull]; rfl
  · rw [hname]
    by_cases hempty : name = ""
    · subst hempty; rfl
    · rw [if_pos, if_neg]
      · simpa [Value.is, Value.key?, Label.key, Scalar.key] using hempty
      · simpa [Graph.isTruthy, Label.isTruthy, Scalar.isTruthy] using hempty

theorem find?_reread_extra (hothers : d.CarriesOthers) (g : Graph) (keys : List Label) (k : Key) :
    Table.find? k (d.reread g (arranged d.written.1 d.extra keys)).extra =
      Table.find? k d.extra := by
  have hfilter := Table.find?_filter k (fun k => !isManaged k)
    (arranged d.written.1 d.extra keys)
  refine hfilter.trans ?_
  rw [find?_arranged hothers.apart, topValue?]
  cases hmanaged : isManaged k with
  | true =>
      have hnot : k ∉ (Table.keys d.extra : List Key) := fun hk => by
        rw [hothers.unmanaged k hk] at hmanaged
        cases hmanaged
      rw [Table.find?_eq_none_of_notMem hnot]
      rfl
  | false =>
      have hnot : k ∉ (Table.keys d.written.1 : List Key) := fun hk => by
        rw [isManaged_iff.2 ((keys_written_sublist d).subset hk)] at hmanaged
        cases hmanaged
      rw [Table.find?_eq_none_of_notMem hnot]
      rfl

theorem perm_keys_reread (hothers : d.CarriesOthers) (g : Graph) (keys : List Label) :
    (Table.keys (d.reread g (arranged d.written.1 d.extra keys)).extra : List Key).Perm
      (Table.keys d.extra) := by
  have htop := nodup_keys_arranged (nodup_keys_written d) hothers.distinct hothers.apart keys
  have hsame : ∀ k : Key,
      k ∈ (Table.keys (d.reread g (arranged d.written.1 d.extra keys)).extra : List Key) ↔
        k ∈ (Table.keys d.extra : List Key) := fun k => by
    rw [Table.mem_keys_iff, Table.mem_keys_iff, find?_reread_extra hothers]
  exact (List.perm_ext_iff_of_nodup (htop.sublist (List.filter_sublist.map _))
    hothers.distinct).2 hsame

/-- **A document is read as it was written.** The parts have the same entries in the same order, the
context in use is the same, except that an empty name is none, and what is carried along is the same
under every key. The keys of the mapping are those that were found, if they are managed or carried,
each at its first place, then the other carried ones, then the other managed ones that have
something. -/
theorem read_of_written (hd : d.WellFormed) (hnames : ∀ p, ∀ e ∈ d.entries p, e.1 ≠ .str "")
    (hothers : d.CarriesOthers) (hclosed : d.IsClosed) :
    ∃ top g d', d.toMapping = .ok (top, g) ∧ ofMapping g top = .ok d' ∧
      (∀ p, trees d'.graph (d'.entries p) = trees d.graph (d.entries p)) ∧
      d'.currentContext =
        (if d.currentContext.is (.str "") then .null else d.currentContext) ∧
      (Table.keys d'.extra : List Key).Perm (Table.keys d.extra) ∧
      (∀ k, (Table.find? k d'.extra).map d'.graph.unfold =
        (Table.find? k d.extra).map d.graph.unfold) ∧
      (Table.keys top : List Key).Nodup ∧ (Table.keys top : List Key) =
        (d.foundKeys.filter fun k =>
          isManaged k || k ∈ (Table.keys d.extra : List Key)).eraseDups ++
          (Table.keys d.extra : List Key).filter (· ∉ d.foundKeys) ++
            d.sections.filter (· ∉ d.foundKeys) := by
  obtain ⟨keys, horder, hfound⟩ := hd.exists_labels
  have hgraph := (managed_spec d).1
  refine ⟨_, _, _, toMapping_eq hothers horder, ofMapping_toMapping hd hothers hnames keys,
    trees_reread hclosed.graph hd hgraph _, hd.heldContext, ?_, fun k => ?_, ?_, ?_⟩
  · exact perm_keys_reread hothers _ keys
  · rw [find?_reread_extra hothers]
    cases hextra : Table.find? k d.extra with
    | none => rfl
    | some v =>
        obtain ⟨l, -, hmem⟩ := Table.exists_of_find? hextra
        have hext := (reread_extends d.written.2 d (arranged d.written.1 d.extra keys)).trans hgraph
        exact congrArg some (Graph.unfold_of_extends hclosed.graph hext (hclosed.extra _ hmem))
  · exact nodup_keys_arranged (nodup_keys_written d) hothers.distinct hothers.apart keys
  · rw [keys_arranged, ← hfound, keys_written_filter hd]
    congr 3
    exact List.filter_congr fun k hk => isSome_topValue? hk

/-- A document whose keys were found in disorder: one twice, one that is nowhere, some not at all.
-/
def scattered : Document where
  graph := ⟨#[.map [(.str "server", .str "s")], .map []]⟩
  clusters := [(.str "a", .ref 0)]
  contexts := []
  users := [(.str "u", .ref 1)]
  currentContext := .str ""
  extra := [(.str "kind", .str "Config"), (.str "apiVersion", .str "v1")]
  keyOrder := [.str "users", .str "nowhere", .str "kind", .str "users", .str "contexts"]

theorem scattered_wellFormed : scattered.WellFormed where
  named p e he := by
    cases p <;> simp [entries, scattered] at he <;> exact ⟨_, congrArg Prod.fst he⟩
  distinct p := by cases p <;> decide
  mappings p e he := by
    cases p <;> simp [entries, scattered] at he <;> subst he <;> exact ⟨_, _, rfl, rfl⟩
  current := .inr ⟨_, rfl⟩
  labels v hv := by
    simp only [scattered, List.mem_cons, List.not_mem_nil, or_false] at hv
    rcases hv with rfl | rfl | rfl | rfl | rfl <;> exact ⟨_, rfl⟩

theorem read_of_written_scattered :
    ∃ top g d', scattered.toMapping = .ok (top, g) ∧ ofMapping g top = .ok d' ∧
      d'.currentContext = .null ∧
      (Table.keys top : List Key) = [.str "users", .str "kind", .str "contexts",
        .str "apiVersion", .str "clusters"] := by
  have hothers : scattered.CarriesOthers := ⟨by decide, by decide⟩
  have hclosed : scattered.IsClosed := ⟨Graph.closed_iff.2 (by decide), by decide⟩
  have hnames : ∀ p, ∀ e ∈ scattered.entries p, e.1 ≠ .str "" := by
    intro p e he
    cases p <;> simp [entries, scattered] at he <;> simp [he]
  obtain ⟨top, g, d', hwrite, hread, -, hcurrent, -, -, -, hkeys⟩ :=
    read_of_written scattered_wellFormed hnames hothers hclosed
  exact ⟨top, g, d', hwrite, hread, hcurrent, hkeys⟩

end Document
end KubeAtlas.Kubeconfig
