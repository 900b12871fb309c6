import KubeAtlas.Proofs.Except
import KubeAtlas.Proofs.Graph.Closed
import KubeAtlas.Proofs.Graph.Labels
import KubeAtlas.Yaml.Load
/-!
# The graph of a document

Values are built node by node. A collection takes its cell when it is met and its contents later, so
that at any time some cells hold nothing yet; what they will hold refers to cells that were taken by
then. So the graph is well-formed all the way: no reference ever points past the cells, and a
mapping is made as a table. Its labels come from scalars alone, so that none is a tuple and none is
a value that no text format can express. `Grows` is what a step of building does, and a document is
a chain of such steps.
-/

namespace KubeAtlas

def Label.IsPlain : Label → Prop
  | scalar (.foreign _) | tuple _ _ => False
  | scalar _ | date _ _ | moment _ _ => True

namespace Yaml

deriving instance DecidableEq for Content
deriving instance DecidableEq for Node
deriving instance DecidableEq for Document

/-- Values under construction, all of which stand in the graph and have plain labels. -/
structure Building.Sound (b : Building) : Prop where
  graph : b.graph.WellFormed
  plain : b.graph.All Label.IsPlain
  values : ∀ i v, b.values.getD i none = some v →
    (∀ a ∈ v.ids, a < b.graph.cells.size) ∧ v.All Label.IsPlain

namespace Building

variable {b c d : Building} {id : Nat} {v : Value}

def Grows (b c : Building) : Prop := c.Sound ∧ b.graph.cells.size ≤ c.graph.cells.size

theorem Grows.trans (hbc : b.Grows c) (hcd : c.Grows d) : b.Grows d :=
  ⟨hcd.1, Nat.le_trans hbc.2 hcd.2⟩

def Holds (b : Building) (v : Value) : Prop :=
  (∀ a ∈ v.ids, a < b.graph.cells.size) ∧ v.All Label.IsPlain

theorem Holds.grow (hv : b.Holds v) (hbc : b.Grows c) : c.Holds v :=
  ⟨fun a ha => Nat.lt_of_lt_of_le (hv.1 a ha) hbc.2, hv.2⟩

theorem Sound.alloc (hb : b.Sound) {k : Cell} (hk : ∀ a ∈ k.ids, a < b.graph.cells.size)
    (hplain : k.All Label.IsPlain)
    (hdistinct : ∀ entries, k = .map entries → (Table.keys entries : List Key).Nodup) :
    b.Grows { b with graph := (b.graph.alloc k).2 } := by
  have hsize : b.graph.cells.size ≤ (b.graph.alloc k).2.cells.size := by
    rw [Graph.size_alloc]
    exact Nat.le_succ _
  refine ⟨⟨hb.graph.alloc hk hdistinct, hb.plain.alloc hplain, fun i v hv => ?_⟩, hsize⟩
  obtain ⟨hids, hall⟩ := hb.values i v hv
  exact ⟨fun a ha => Nat.lt_of_lt_of_le (hids a ha) hsize, hall⟩

theorem holds_alloc (b : Building) (k : Cell) (hids : v.ids = [b.graph.cells.size])
    (hall : v.All Label.IsPlain) :
    ({ b with graph := (b.graph.alloc k).2 } : Building).Holds v := by
  refine ⟨fun a ha => ?_, hall⟩
  rw [hids] at ha
  obtain rfl := List.mem_singleton.1 ha
  rw [Graph.size_alloc]
  exact Nat.lt_succ_self _

/-! ### One node -/

theorem holds_scalar (b : Building) {s : Scalar} (hs : (Label.scalar s).IsPlain) :
    b.Holds (.leaf (.scalar s)) := by
  refine ⟨fun a ha => ?_, hs⟩
  cases ha

theorem Sound.scalar (hb : b.Sound) {tag : Tag} (h : b.scalar id tag = .ok (v, c)) :
    b.Grows c ∧ c.Holds v := by
  have hleaf : ∀ s, (v, c) = (Value.leaf (.scalar s), b) → (Label.scalar s).IsPlain →
      b.Grows c ∧ c.Holds v := by
    intro s hs hplain
    cases hs
    exact ⟨⟨hb, Nat.le_refl _⟩, holds_scalar b hplain⟩
  rw [Building.scalar] at h
  obtain ⟨text, -, h⟩ := bind_eq_ok_iff.1 h
  cases tag with
  | null | str => exact hleaf _ (Except.ok.inj h).symm trivial
  | bool | int | float | binary =>
      obtain ⟨x, -, h⟩ := bind_eq_ok_iff.1 h
      exact hleaf _ (Except.ok.inj h).symm trivial
  | timestamp =>
      simp only at h
      split at h
      · obtain ⟨x, -, h⟩ := bind_eq_ok_iff.1 h
        have hgrows := hb.alloc (k := .mark) (by simp [Cell.ids]) trivial (by simp)
        cases x with
        | date day =>
            cases h
            exact ⟨hgrows, holds_alloc b .mark rfl trivial⟩
        | moment m =>
            cases h
            exact ⟨hgrows, holds_alloc b .mark rfl trivial⟩
      · cases h
  | _ => cases h

theorem Sound.collection (hb : b.Sound) {k : Cell} (hk : k.isEmpty = true)
    (h : b.collection id k = (v, c)) : b.Grows c ∧ c.Holds v := by
  cases h
  have hids : ∀ a ∈ k.ids, a < b.graph.cells.size := by
    intro a ha
    cases k <;> simp_all [Cell.isEmpty, Cell.ids]
  have hdistinct : ∀ entries, k = .map entries → (Table.keys entries : List Key).Nodup := by
    rintro entries rfl
    rw [List.isEmpty_iff.1 hk]
    exact List.nodup_nil
  obtain ⟨hsound, hsize⟩ := hb.alloc hids (Cell.all_of_isEmpty hk) hdistinct
  exact ⟨⟨⟨hsound.graph, hsound.plain, hsound.values⟩, hsize⟩, holds_alloc b k rfl trivial⟩

theorem Sound.value (hb : b.Sound) (h : b.value id = .ok (v, c)) : b.Grows c ∧ c.Holds v := by
  rw [Building.value] at h
  split at h
  · next w hw =>
      cases h
      exact ⟨⟨hb, Nat.le_refl _⟩, hb.values id v hw⟩
  · obtain ⟨⟨w, e⟩, hnode, h⟩ := bind_eq_ok_iff.1 h
    have hgrows : b.Grows e ∧ e.Holds w := by
      split at hnode
      · exact hb.collection rfl (Except.ok.inj hnode)
      · exact hb.collection rfl (Except.ok.inj hnode)
      · exact hb.collection rfl (Except.ok.inj hnode)
      · exact hb.collection rfl (Except.ok.inj hnode)
      · exact hb.collection rfl (Except.ok.inj hnode)
      · exact hb.scalar hnode
    obtain ⟨⟨hsound, hsize⟩, hholds⟩ := hgrows
    cases h
    refine ⟨⟨⟨hsound.graph, hsound.plain, fun i u hu => ?_⟩, hsize⟩, hholds⟩
    rw [Array.getD_eq_getD_getElem?, Array.getElem?_setIfInBounds] at hu
    split at hu
    · split at hu
      · cases hu
        exact hholds
      · cases hu
    · rw [← Array.getD_eq_getD_getElem?] at hu
      exact hsound.values i u hu

/-! ### Several nodes -/

theorem Sound.several (hb : b.Sound) {ids : List Nat} {vs : List Value}
    (h : b.several ids = .ok (vs, c)) : b.Grows c ∧ ∀ v ∈ vs, c.Holds v := by
  induction ids generalizing b vs with
  | nil =>
      cases h
      exact ⟨⟨hb, Nat.le_refl _⟩, by simp⟩
  | cons id rest ih =>
      rw [Building.several] at h
      obtain ⟨⟨v, d⟩, hfirst, h⟩ := bind_eq_ok_iff.1 h
      obtain ⟨⟨ws, e⟩, hrest, h⟩ := bind_eq_ok_iff.1 h
      cases h
      obtain ⟨hgrows, hv⟩ := hb.value hfirst
      obtain ⟨hlater, hws⟩ := ih hgrows.1 hrest
      exact ⟨hgrows.trans hlater, List.forall_mem_cons.2 ⟨hv.grow hlater, hws⟩⟩

theorem Sound.table (hb : b.Sound) {ids : List (Nat × Nat)} {es : List (Label × Value)}
    (h : b.table ids = .ok (es, c)) :
    b.Grows c ∧ ∀ e ∈ es, c.Holds (.leaf e.1) ∧ c.Holds e.2 := by
  induction ids generalizing b es with
  | nil =>
      cases h
      exact ⟨⟨hb, Nat.le_refl _⟩, by simp⟩
  | cons pair rest ih =>
      obtain ⟨k, w⟩ := pair
      rw [Building.table] at h
      obtain ⟨⟨key, d⟩, hkey, h⟩ := bind_eq_ok_iff.1 h
      cases key with
      | ref a => cases h
      | leaf l =>
          obtain ⟨⟨v, e⟩, hvalue, h⟩ := bind_eq_ok_iff.1 h
          obtain ⟨⟨fs, f⟩, hrest, h⟩ := bind_eq_ok_iff.1 h
          cases h
          obtain ⟨hgrows, hl⟩ := hb.value hkey
          obtain ⟨hlater, hv⟩ := hgrows.1.value hvalue
          obtain ⟨hlast, hfs⟩ := ih hlater.1 hrest
          refine ⟨(hgrows.trans hlater).trans hlast, List.forall_mem_cons.2 ⟨?_, hfs⟩⟩
          exact ⟨hl.grow (hlater.trans hlast), hv.grow hlast⟩

theorem Sound.pairs (hb : b.Sound) {ids : List Nat} {vs : List Value}
    (h : b.pairs ids = .ok (vs, c)) : b.Grows c ∧ ∀ v ∈ vs, c.Holds v := by
  induction ids generalizing b vs with
  | nil =>
      cases h
      exact ⟨⟨hb, Nat.le_refl _⟩, by simp⟩
  | cons id rest ih =>
      rw [Building.pairs] at h
      split at h
      · obtain ⟨⟨k, d⟩, hkey, h⟩ := bind_eq_ok_iff.1 h
        obtain ⟨⟨v, e⟩, hvalue, h⟩ := bind_eq_ok_iff.1 h
        obtain ⟨⟨ws, f⟩, hrest, h⟩ := bind_eq_ok_iff.1 h
        cases h
        obtain ⟨hgrows, hk⟩ := hb.value hkey
        obtain ⟨hlater, hv⟩ := hgrows.1.value hvalue
        have hboth : ∀ w ∈ [k, v], e.Holds w :=
          List.forall_mem_cons.2 ⟨hk.grow hlater, List.forall_mem_singleton.2 hv⟩
        have hpair : ∀ a ∈ (Cell.tuple [k, v]).ids, a < e.graph.cells.size := by
          intro a ha
          obtain ⟨w, hw, ha⟩ := List.mem_flatMap.1 ha
          exact (hboth w hw).1 a ha
        have halloc := hlater.1.alloc hpair (fun w hw => (hboth w hw).2) (by simp)
        obtain ⟨hlast, hws⟩ := ih halloc.1 hrest
        refine ⟨((hgrows.trans hlater).trans halloc).trans hlast, List.forall_mem_cons.2 ⟨?_, hws⟩⟩
        exact (holds_alloc (v := .ref _) e _ rfl trivial).grow hlast
      · cases h

theorem Sound.mapping (hb : b.Sound) {es : List (Label × Value)}
    (h : b.mapping id = .ok (es, c)) :
    b.Grows c ∧ (∀ e ∈ es, c.Holds (.leaf e.1) ∧ c.Holds e.2) ∧
      (Table.keys es : List Key).Nodup := by
  rw [Building.mapping] at h
  split at h
  · obtain ⟨nodes, -, h⟩ := bind_eq_ok_iff.1 h
    obtain ⟨⟨fs, d⟩, htable, h⟩ := bind_eq_ok_iff.1 h
    cases h
    have hsound : ({ b with nodes := nodes } : Building).Sound := ⟨hb.graph, hb.plain, hb.values⟩
    obtain ⟨hgrows, hfs⟩ := hsound.table htable
    refine ⟨hgrows, fun e he => ?_, Table.nodup_keys_ofList fs⟩
    obtain ⟨⟨w, hw⟩, ⟨l, hl⟩⟩ := Table.mem_ofList he
    exact ⟨(hfs _ hw).1, (hfs _ hl).2⟩
  · cases h

/-! ### Contents -/

/-- What a collection is filled with: contents that stand in the graph, with keys told apart. -/
theorem Sound.fill (hb : b.Sound) {cell : Nat} (h : b.fill id cell = .ok c) : b.Grows c := by
  rw [Building.fill] at h
  obtain ⟨⟨k, d⟩, hcontents, h⟩ := bind_eq_ok_iff.1 h
  cases h
  suffices hk : b.Grows d ∧ (∀ a ∈ k.ids, a < d.graph.cells.size) ∧ k.All Label.IsPlain ∧
      ∀ entries, k = .map entries → (Table.keys entries : List Key).Nodup by
    obtain ⟨⟨hsound, hsize⟩, hids, hplain, hdistinct⟩ := hk
    refine ⟨⟨hsound.graph.set cell hids hdistinct, hsound.plain.set cell hplain,
      fun i v hv => ?_⟩, ?_⟩
    · rw [Graph.size_set]
      exact hsound.values i v hv
    · rw [Graph.size_set]
      exact hsize
  split at hcontents
  · obtain ⟨⟨es, e⟩, hmapping, hcontents⟩ := bind_eq_ok_iff.1 hcontents
    cases hcontents
    obtain ⟨hgrows, hes, hdistinct⟩ := hb.mapping hmapping
    refine ⟨hgrows, fun a ha => ?_, fun e he => ⟨(hes e he).1.2, (hes e he).2.2⟩,
      fun entries heq => Cell.map.inj heq ▸ hdistinct⟩
    obtain ⟨entry, hentry, ha⟩ := List.mem_flatMap.1 ha
    exact (List.mem_append.1 ha).elim ((hes entry hentry).1.1 a) ((hes entry hentry).2.1 a)
  · obtain ⟨⟨es, e⟩, hmapping, hcontents⟩ := bind_eq_ok_iff.1 hcontents
    cases hcontents
    obtain ⟨hgrows, hes, -⟩ := hb.mapping hmapping
    refine ⟨hgrows, fun a ha => ?_, List.forall_mem_map.2 fun e he => (hes e he).1.2, by simp⟩
    obtain ⟨l, hl, ha⟩ := List.mem_flatMap.1 ha
    obtain ⟨entry, hentry, rfl⟩ := List.mem_map.1 hl
    exact (hes entry hentry).1.1 a ha
  · obtain ⟨⟨vs, e⟩, hseveral, hcontents⟩ := bind_eq_ok_iff.1 hcontents
    cases hcontents
    obtain ⟨hgrows, hvs⟩ := hb.several hseveral
    refine ⟨hgrows, fun a ha => ?_, fun v hv => (hvs v hv).2, by simp⟩
    obtain ⟨v, hv, ha⟩ := List.mem_flatMap.1 ha
    exact (hvs v hv).1 a ha
  · cases hcontents
  · obtain ⟨⟨vs, e⟩, hpairs, hcontents⟩ := bind_eq_ok_iff.1 hcontents
    cases hcontents
    obtain ⟨hgrows, hvs⟩ := hb.pairs hpairs
    refine ⟨hgrows, fun a ha => ?_, fun v hv => (hvs v hv).2, by simp⟩
    obtain ⟨v, hv, ha⟩ := List.mem_flatMap.1 ha
    exact (hvs v hv).1 a ha
  · cases hcontents

theorem Sound.fillAll (hb : b.Sound) {waiting : List (Nat × Nat)}
    (h : b.fillAll waiting = .ok c) : b.Grows c := by
  induction waiting generalizing b with
  | nil =>
      cases h
      exact ⟨hb, Nat.le_refl _⟩
  | cons pair rest ih =>
      rw [Building.fillAll] at h
      obtain ⟨d, hfirst, h⟩ := bind_eq_ok_iff.1 h
      have hgrows := hb.fill hfirst
      exact hgrows.trans (ih hgrows.1 h)

theorem Sound.fillRounds (hb : b.Sound) {rounds : Nat} (h : fillRounds rounds b = .ok c) :
    b.Grows c := by
  induction rounds generalizing b with
  | zero =>
      cases h
      exact ⟨hb, Nat.le_refl _⟩
  | succ rounds ih =>
      rw [Building.fillRounds] at h
      split at h
      · cases h
        exact ⟨hb, Nat.le_refl _⟩
      · obtain ⟨d, hround, h⟩ := bind_eq_ok_iff.1 h
        have hsound : ({ b with waiting := [] } : Building).Sound := ⟨hb.graph, hb.plain, hb.values⟩
        have hgrows : b.Grows d := hsound.fillAll hround
        exact hgrows.trans (ih hgrows.1 h)

end Building

/-! ### Documents -/

variable {v : Value} {g : Graph}

theorem Document.value_eq_ok {d : Document} (h : d.value = .ok (v, g)) :
    g.WellFormed ∧ (∀ a ∈ v.ids, a < g.cells.size) ∧ g.All Label.IsPlain := by
  rw [Document.value] at h
  obtain ⟨⟨w, b⟩, hroot, h⟩ := bind_eq_ok_iff.1 h
  obtain ⟨c, hrounds, h⟩ := bind_eq_ok_iff.1 h
  cases h
  have hstart : (⟨d.nodes, Array.replicate d.nodes.size none, Graph.empty, [],
      Building.mergeCount d.nodes⟩ : Building).Sound := by
    refine ⟨Graph.WellFormed.empty, Graph.all_empty, fun i v hv => ?_⟩
    rw [Array.getD_eq_getD_getElem?, Array.getElem?_replicate] at hv
    split at hv <;> cases hv
  obtain ⟨hgrows, hv⟩ := hstart.value hroot
  have hlater := hgrows.1.fillRounds hrounds
  exact ⟨hlater.1.graph, (hv.grow hlater).1, hlater.1.plain⟩

/-- A document is loaded by way of its characters and its nodes. -/
theorem loadBytes_of_nodes {bytes : List UInt8} {s : List Char} {d : Document}
    (hchars : checkedBytes bytes = .ok s)
    (hnodes : Document.read (Event.read (Token.read s)) = .ok (some d)) :
    loadBytes bytes = d.value := by
  rw [loadBytes, hchars]
  simp only [loadChars, hnodes]
  rfl

theorem loadText_of_nodes {s t : List Char} {d : Document} (hchars : checkedText s = .ok t)
    (hnodes : Document.read (Event.read (Token.read t)) = .ok (some d)) :
    loadText s = d.value := by
  rw [loadText, hchars]
  simp only [loadChars, hnodes]
  rfl

/-- What is loaded is a value of a well-formed graph with plain labels. -/
theorem loadBytes_eq_ok {bytes : List UInt8} (h : loadBytes bytes = .ok (v, g)) :
    g.WellFormed ∧ (∀ a ∈ v.ids, a < g.cells.size) ∧ g.All Label.IsPlain := by
  rw [loadBytes] at h
  split at h
  · rw [loadChars] at h
    obtain ⟨document, -, h⟩ := bind_eq_ok_iff.1 h
    cases document with
    | some d => exact d.value_eq_ok h
    | none =>
        cases h
        exact ⟨Graph.WellFormed.empty, by simp [Value.ids, Label.ids], Graph.all_empty⟩
  · cases h

end Yaml
end KubeAtlas
