import KubeAtlas.Proofs.Kubeconfig.Found
/-!
# Empty bodies

An entry without a body, or with an empty one, gets an empty mapping of its own. So in a document
that was read an empty body belongs to one entry alone, and nothing else refers to it; a body that
is not empty may be shared, by other entries or from within the document. That matters when the
document is written, because what is shared shows in the text. `OwnsEmpty` says it of a document,
and holds from reading on and after a renaming.

While parts are read the graph grows, but only by empty mappings, so that what counts as present is
the same in all the graphs on the way.
-/

namespace KubeAtlas

variable {g h k l : Graph} {v : Value}

theorem Cell.ids_eq_nil {c : Cell} (hc : c.isEmpty = true) : c.ids = [] := by
  cases c with
  | mark => rfl
  | list items | tuple items | set items | map items =>
      rw [List.isEmpty_iff.1 hc]
      rfl

namespace Graph

/-- A graph that has grown by empty cells only. -/
structure Pads (g h : Graph) : Prop where
  extended : h.Extends g
  empty : ∀ a, g.cells.size ≤ a → (h.cell a).isEmpty = true

theorem Pads.refl (g : Graph) : g.Pads g where
  extended := Extends.refl g
  empty a ha := by rw [cell_of_size_le ha]; rfl

theorem Pads.alloc (hh : g.Pads h) {c : Cell} (hc : c.isEmpty = true) :
    g.Pads (h.alloc c).2 where
  extended := (extends_alloc h c).trans hh.extended
  empty a ha := by
    rcases Nat.lt_trichotomy a h.cells.size with hlt | rfl | hlt
    · rw [cell_alloc_of_lt h c a hlt]
      exact hh.empty a ha
    · exact (congrArg Cell.isEmpty (cell_alloc_self h c)).trans hc
    · rw [cell_of_size_le (by rw [size_alloc]; exact hlt)]
      rfl

theorem Pads.isTruthy_eq (hh : g.Pads h) (v : Value) : h.isTruthy v = g.isTruthy v := by
  cases v with
  | leaf l => rfl
  | ref a =>
      rw [isTruthy, isTruthy]
      by_cases ha : a < g.cells.size
      · rw [hh.extended.2 a ha]
      · have hbeyond := Nat.le_of_not_lt ha
        rw [hh.empty a hbeyond, cell_of_size_le hbeyond]
        rfl

end Graph

namespace Kubeconfig

variable {d d' : Document} {top es : Entries} {vs ws : List Value} {p : Part} {new : String}

/-! ### Reading -/

/-- The bodies that are read while the graph grows from `h` to `k`. Those that count as present were
loaded, in `g`, and may be the same; any other one is a cell that was taken on the way. -/
structure Fills (g h k : Graph) (vs : List Value) : Prop where
  pads : g.Pads k
  size : h.cells.size ≤ k.cells.size
  apart : vs.Pairwise fun v w => v = w → g.isTruthy v = true
  origin : ∀ v ∈ vs, g.isTruthy v = true ∨ ∃ a, v = .ref a ∧ h.cells.size ≤ a ∧ a < k.cells.size

theorem Fills.nil (hh : g.Pads h) : Fills g h h [] := ⟨hh, Nat.le_refl _, .nil, by simp⟩

theorem Fills.append (hvs : Fills g h k vs) (hws : Fills g k l ws) : Fills g h l (vs ++ ws) where
  pads := hws.pads
  size := Nat.le_trans hvs.size hws.size
  apart := by
    refine List.pairwise_append.2 ⟨hvs.apart, hws.apart, fun v hv w hw hsame => ?_⟩
    rcases hvs.origin v hv with htruthy | ⟨a, rfl, -, ha⟩
    · exact htruthy
    · rcases hws.origin w hw with htruthy | ⟨b, rfl, hb, -⟩
      · rwa [hsame]
      · -- the two were taken at different times
        obtain rfl := Value.ref.inj hsame
        omega
  origin := List.forall_mem_append.2
    ⟨fun v hv => (hvs.origin v hv).imp_right fun ⟨a, hsame, hle, hlt⟩ =>
        ⟨a, hsame, hle, Nat.lt_of_lt_of_le hlt hws.size⟩,
      fun w hw => (hws.origin w hw).imp_right fun ⟨a, hsame, hle, hlt⟩ =>
        ⟨a, hsame, Nat.le_trans hvs.size hle, hlt⟩⟩

theorem Fills.alloc (hh : g.Pads h) :
    Fills g h (h.alloc (.map [])).2 [.ref h.cells.size] where
  pads := hh.alloc rfl
  size := by rw [Graph.size_alloc]; exact Nat.le_succ _
  apart := List.pairwise_singleton _ _
  origin := List.forall_mem_singleton.2
    (.inr ⟨_, rfl, Nat.le_refl _, by rw [Graph.size_alloc]; exact Nat.lt_succ_self _⟩)

theorem pairwise_of_subperm (hws : ws.Subperm vs)
    (hvs : vs.Pairwise fun v w => v = w → g.isTruthy v = true) :
    ws.Pairwise fun v w => v = w → g.isTruthy v = true := by
  obtain ⟨us, hperm, hsub⟩ := hws
  exact hperm.pairwise (hvs.sublist hsub) fun hxy hsame => hsame ▸ hxy hsame.symm

theorem Fills.subperm (hvs : Fills g h k vs) (hws : ws.Subperm vs) : Fills g h k ws where
  pads := hvs.pads
  size := hvs.size
  apart := pairwise_of_subperm hws hvs.apart
  origin v hv := hvs.origin v (hws.subset hv)

namespace Part

variable {entry : Value} {items : List Value}

theorem fills_of_readEntry {e : Label × Value} (hh : g.Pads h)
    (hread : p.readEntry h entry = .ok (e, k)) : Fills g h k [e.2] := by
  rw [readEntry] at hread
  split at hread
  · cases hread
  · next es name hname =>
      obtain ⟨d, -, hread⟩ := bind_eq_ok_iff.1 hread
      obtain ⟨⟨body, k⟩, hbody, hread⟩ := bind_eq_ok_iff.1 hread
      cases hread
      split at hbody
      · cases hbody
        exact .alloc hh
      · next found hfound =>
          split at hbody
          · cases hbody
            have htruthy := (Option.filter_eq_some_iff.1 hfound).2
            rw [hh.isTruthy_eq] at htruthy
            exact ⟨hh, Nat.le_refl _, List.pairwise_singleton _ _,
              List.forall_mem_singleton.2 (.inl htruthy)⟩
          · cases hbody

theorem fills_of_readEntries (hh : g.Pads h) (hread : p.readEntries h items = .ok (es, k)) :
    Fills g h k (es.map (·.2)) := by
  induction items generalizing h es with
  | nil =>
      cases hread
      exact .nil hh
  | cons v rest ih =>
      rw [readEntries] at hread
      obtain ⟨⟨e, h'⟩, hentry, hread⟩ := bind_eq_ok_iff.1 hread
      obtain ⟨⟨fs, h''⟩, hlater, hread⟩ := bind_eq_ok_iff.1 hread
      cases hread
      have hfirst := fills_of_readEntry hh hentry
      exact hfirst.append (ih hfirst.pads hlater)

theorem fills_of_read (hh : g.Pads h) (hread : p.read h top = .ok (es, k)) :
    Fills g h k (es.map (·.2)) := by
  rw [read] at hread
  split at hread
  · cases hread
    exact .nil hh
  · split at hread
    · cases hread
    · obtain ⟨⟨fs, k⟩, hentries, hread⟩ := bind_eq_ok_iff.1 hread
      cases hread
      exact (fills_of_readEntries hh hentries).subperm (Table.values_ofList_subperm fs)

end Part

/-! ### Documents -/

namespace Document

def allEntries (d : Document) : Entries := d.clusters ++ d.contexts ++ d.users

def bodies (d : Document) : List Value := d.allEntries.map (·.2)

/-- A cell of the document that is not an empty body. -/
def IsInner (d : Document) (a : Nat) : Prop :=
  a < d.graph.cells.size ∧ (.ref a ∈ d.bodies → d.graph.isTruthy (.ref a) = true)

/-- An empty body belongs to one entry, and nothing else refers to it. -/
structure OwnsEmpty (d : Document) : Prop where
  bodies : d.bodies.Pairwise fun v w => v = w → d.graph.isTruthy v = true
  cells : ∀ a, ∀ b ∈ (d.graph.cell a).ids, d.IsInner b
  extra : ∀ e ∈ d.extra, ∀ a, a ∈ e.1.ids ∨ a ∈ e.2.ids → d.IsInner a
  keyOrder : ∀ v ∈ d.keyOrder, ∀ a ∈ v.ids, d.IsInner a

theorem OwnsEmpty.closed (hd : d.OwnsEmpty) : d.graph.Closed :=
  fun a b hb => (hd.cells a b hb).1

theorem ofMapping_ownsEmpty (hg : g.Closed)
    (htop : ∀ e ∈ top, (∀ a ∈ e.1.ids, a < g.cells.size) ∧ ∀ a ∈ e.2.ids, a < g.cells.size)
    (hread : ofMapping g top = .ok d) : d.OwnsEmpty := by
  obtain ⟨g₁, g₂, hclusters, hcontexts, husers, -, hextra, horder⟩ := ofMapping_parts hread
  have hfills₁ := Part.fills_of_read (Graph.Pads.refl g) hclusters
  have hfills₂ := Part.fills_of_read hfills₁.pads hcontexts
  have hfills₃ := Part.fills_of_read hfills₂.pads husers
  have hfills : Fills g g d.graph d.bodies := by
    rw [bodies, allEntries, List.map_append, List.map_append]
    exact (hfills₁.append hfills₂).append hfills₃
  -- whatever was loaded is inner, since an empty body was taken later
  have hinner : ∀ a < g.cells.size, d.IsInner a := by
    refine fun a ha => ⟨Nat.lt_of_lt_of_le ha hfills.size, fun hbody => ?_⟩
    rw [hfills.pads.isTruthy_eq]
    rcases hfills.origin _ hbody with htruthy | ⟨b, hsame, hb, -⟩
    · exact htruthy
    · obtain rfl := Value.ref.inj hsame
      omega
  constructor
  case bodies => simpa only [hfills.pads.isTruthy_eq] using hfills.apart
  case cells =>
    intro a b hb
    by_cases ha : a < g.cells.size
    · rw [hfills.pads.extended.2 a ha] at hb
      exact hinner b (hg a b hb)
    · rw [Cell.ids_eq_nil (hfills.pads.empty a (Nat.le_of_not_lt ha))] at hb
      cases hb
  case extra =>
    rw [hextra]
    intro e he a ha
    obtain ⟨hlabel, hvalue⟩ := htop e (List.mem_filter.1 he).1
    exact hinner a (ha.elim (hlabel a) (hvalue a))
  case keyOrder =>
    rw [horder]
    intro v hv a ha
    obtain ⟨e, he, rfl⟩ := List.mem_map.1 hv
    exact hinner a ((htop e he).1 a ha)

end Document

/-! ### Renaming -/

section Repointing

variable {old : String} {contexts : Entries} {es : Entries}

theorem isEmpty_repointedCell (c : Cell) :
    (repointedCell (.str old) new c).isEmpty = c.isEmpty := by
  cases c with
  | map es =>
      rw [repointedCell, repointed]
      cases es with
      | nil => rfl
      | cons e rest =>
          split
          · rw [Table.put]
            split <;> rfl
          · rfl
  | _ => rfl

theorem ids_repointedCell {c : Cell} {a : Nat} (ha : a ∈ (repointedCell (.str old) new c).ids) :
    a ∈ c.ids := by
  cases c with
  | map es =>
      rw [repointedCell, repointed] at ha
      split at ha
      · obtain ⟨e, he, ha⟩ := List.mem_flatMap.1 ha
        obtain ⟨hlabel, hvalue⟩ := Table.mem_put he
        rcases List.mem_append.1 ha with ha | ha
        · rcases hlabel with hlabel | ⟨w, hw⟩
          · rw [hlabel] at ha
            cases ha
          · exact Cell.mem_ids_of_mem_map hw (.inl ha)
        · rcases hvalue with hvalue | ⟨l, hl⟩
          · rw [hvalue] at ha
            cases ha
          · exact Cell.mem_ids_of_mem_map hl (.inr ha)
      · exact ha
  | _ => exact ha

theorem Repoints.isTruthy_eq (hrep : Repoints (.str old) new contexts g h) (v : Value) :
    h.isTruthy v = g.isTruthy v := by
  cases v with
  | leaf l => rfl
  | ref a =>
      rw [Graph.isTruthy, Graph.isTruthy, hrep.cell a]
      split
      · rw [isEmpty_repointedCell]
      · rfl

theorem Repoints.ids (hrep : Repoints (.str old) new contexts g h) {a b : Nat}
    (hb : b ∈ (h.cell a).ids) : b ∈ (g.cell a).ids := by
  rw [hrep.cell a] at hb
  split at hb
  · exact ids_repointedCell hb
  · exact hb

end Repointing

theorem bodies_renameKey_subperm (old : Label) (new : String) (es : Entries) :
    ((renameKey old new es).map (·.2)).Subperm (es.map (·.2)) := by
  have hsame : (es.map fun e => if e.1.key = old.key then (Label.str new, e.2) else e).map (·.2) =
      es.map (·.2) := by
    rw [List.map_map]
    refine List.map_congr_left fun e _ => ?_
    rw [Function.comp_apply]
    split <;> rfl
  exact hsame ▸ Table.values_ofList_subperm _

namespace Document

theorem bodies_withName_subperm {o : String} {body : Value}
    (hcluster : d.clusters = [(.str o, body)]) (new : String) (h : Graph) :
    (d.withName o new body h).bodies.Subperm d.bodies := by
  have hclusters : (d.withName o new body h).clusters.map (·.2) = d.clusters.map (·.2) := by
    rw [hcluster]
    rfl
  rw [bodies, bodies, allEntries, allEntries]
  simp only [List.map_append]
  rw [hclusters]
  exact (List.subperm_append_right _).2
    ((List.subperm_append_left _).2 (bodies_renameKey_subperm (.str o) new d.contexts))

theorem OwnsEmpty.rename (hd : d.OwnsEmpty) (hwf : d.WellFormed)
    (hrename : rename d new = .ok d') : d'.OwnsEmpty := by
  obtain rfl | ⟨o, body, h, hcluster, hrep, rfl⟩ := rename_ok_cases hwf hrename
  · exact hd
  · have hbodies := bodies_withName_subperm hcluster new h
    have hinner : ∀ a, d.IsInner a → (d.withName o new body h).IsInner a := by
      rintro a ⟨hlt, htruthy⟩
      refine ⟨hrep.size ▸ hlt, fun ha => ?_⟩
      exact (hrep.isTruthy_eq _).trans (htruthy (hbodies.subset ha))
    constructor
    case bodies =>
      have hapart := pairwise_of_subperm hbodies hd.bodies
      simp only [← hrep.isTruthy_eq] at hapart
      exact hapart
    case cells => exact fun a b hb => hinner b (hd.cells a b (hrep.ids hb))
    case extra => exact fun e he a ha => hinner a (hd.extra e he a ha)
    case keyOrder => exact fun v hv a ha => hinner a (hd.keyOrder v hv a ha)

/-- What holds of a document from reading on. -/
structure IsRead (d : Document) : Prop where
  wellFormed : d.WellFormed
  laidOut : ∃ keys, d.LaidOut keys
  isNamed : d.IsNamed
  ownsEmpty : d.OwnsEmpty

theorem ofMapping_isRead (hg : g.Closed)
    (htop : ∀ e ∈ top, (∀ a ∈ e.1.ids, a < g.cells.size) ∧ ∀ a ∈ e.2.ids, a < g.cells.size)
    (hdistinct : (Table.keys top : List Key).Nodup) (hread : ofMapping g top = .ok d) :
    d.IsRead := by
  obtain ⟨hlaid, hnamed⟩ := ofMapping_laidOut hread hdistinct
  exact ⟨(ofMapping_eq_ok hread).1, ⟨_, hlaid⟩, hnamed, ofMapping_ownsEmpty hg htop hread⟩

theorem IsRead.rename (hd : d.IsRead) (hrename : rename d new = .ok d') : d'.IsRead where
  wellFormed := (hd.wellFormed.rename hrename).1
  laidOut := hd.laidOut.imp fun _ hkeys => hkeys.rename hd.wellFormed hrename
  isNamed := hd.isNamed.rename hd.wellFormed hrename
  ownsEmpty := hd.ownsEmpty.rename hd.wellFormed hrename

end Document

end Kubeconfig
end KubeAtlas
