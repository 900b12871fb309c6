import KubeAtlas.Proofs.Datum
import KubeAtlas.Proofs.Graph.Reach
import KubeAtlas.Proofs.Kubeconfig.Repoint
import Mathlib.Data.List.Nodup
/-!
# What renaming keeps of the contexts

Renaming is meant to change the name of the cluster in the contexts that refer to it, the name of
the context of that name, and nothing else: every context stays in its place, and the one in use
stays in use. Two things stand in the way. A table has one entry for a name, so that a context is
lost if the old and the new name are both names of contexts. And the body of a context may stand
inside another context as well, where it is changed as a part of it. `rename_keeps_contexts_iff`
says that nothing else does.
-/

namespace KubeAtlas

/-- The tree of a context with the new name where its cluster is the old one. -/
def Datum.repointed (old new : String) : Datum → Datum
  | .map entries =>
    if (Table.find? (some (Key.str "cluster")) entries).bind Datum.str? = some old then
      .map (Table.put (Datum.str "cluster") (Datum.str new) entries)
    else .map entries
  | d => d

namespace Graph

variable {g h : Graph} {depth : Nat} {above : List Nat} {old new : String}

theorem str?_unfoldBelow (g : Graph) (depth : Nat) (above : List Nat) (v : Value) (s : String) :
    (g.unfoldBelow depth above v).str? = some s ↔ v.is (.str s) = true := by
  cases v with
  | leaf l =>
      rw [unfoldBelow, Datum.str?_eq_some_iff, Label.key?_datum, Value.is, Value.key?,
        decide_eq_true_eq]
      rfl
  | ref a =>
      have hnot : (Value.ref a).is (.str s) = false := rfl
      rw [hnot]
      cases depth with
      | zero => simp [unfoldBelow, Datum.str?]
      | succ depth =>
          by_cases ha : a ∈ above
          · simp [unfoldBelow_of_mem g depth ha, Datum.str?]
          · rw [unfoldBelow_of_notMem g depth ha]
            cases g.cell a <;> simp [unfoldCell, Datum.str?]

end Graph

namespace Kubeconfig

variable {g h : Graph} {depth : Nat} {above : List Nat} {old new : String} {es : Entries}

abbrev shownEntries (g : Graph) (depth : Nat) (above : List Nat) (es : Entries) :
    List (Datum × Datum) :=
  es.map fun e => (e.1.datum, g.unfoldBelow depth above e.2)

theorem shown_cluster_iff (g : Graph) (depth : Nat) (above : List Nat) (es : Entries) (s : String) :
    (Table.find? (some (Key.str "cluster")) (shownEntries g depth above es)).bind Datum.str? =
        some s ↔ refersTo (.str s) es = true := by
  rw [Table.find?_map Label.datum some Label.key?_datum (fun _ _ => Option.some.inj), refersTo,
    field?]
  cases hfield : Table.find? (Key.str "cluster") es with
  | none => simp [Value.is, Value.key?, Label.key, Scalar.key]
  | some v =>
      rw [Option.map_some, Option.bind_some, Option.getD_some]
      exact Graph.str?_unfoldBelow g depth above v s

theorem unfoldCell_repointedCell (g : Graph) (depth : Nat) (above : List Nat) (k : Cell) :
    g.unfoldCell depth above (repointedCell (.str old) new k) =
      (g.unfoldCell depth above k).repointed old new := by
  cases k with
  | map es =>
      rw [repointedCell, repointed, Graph.unfoldCell, Graph.unfoldCell, Datum.repointed]
      by_cases hrefers : refersTo (.str old) es = true
      · rw [if_pos hrefers, if_pos ((shown_cluster_iff g depth above es old).2 hrefers)]
        rw [← Table.put_map Label.datum some Label.key?_datum
          (fun _ _ => Option.some.inj) (g.unfoldBelow depth above)]
        have hnew : g.unfoldBelow depth above (.str new) = .str new := by
          rw [Graph.unfoldBelow]
          rfl
        rw [hnew]
        rfl
      · rw [if_neg hrefers, if_neg fun h => hrefers ((shown_cluster_iff g depth above es old).1 h)]
  | _ => rfl

/-- Repointing writes a text and takes one away, so that the containers inside stay. -/
theorem mem_values_repointedCell {k : Cell} {a : Nat} :
    .ref a ∈ (repointedCell (.str old) new k).values ↔ .ref a ∈ k.values := by
  cases k with
  | map es =>
      rw [repointedCell, repointed]
      split
      · next hrefers =>
          rw [refersTo] at hrefers
          cases hfield : field? es "cluster" with
          | none => simp [hfield, Value.is, Value.key?, Label.key, Scalar.key] at hrefers
          | some v =>
              refine Table.mem_values_put hfield (by simp) ?_
              rintro rfl
              rw [hfield] at hrefers
              cases hrefers
      · exact Iff.rfl
  | _ => exact Iff.rfl

/-! ### One body -/

/-- A context whose body is in a cell refers to a cluster. -/
def RefersFrom (old : String) (contexts : Entries) (g : Graph) (c : Nat) : Prop :=
  c ∈ bodyCells contexts ∧ ∃ es, g.cell c = .map es ∧ refersTo (.str old) es = true

theorem refersFrom_or_stays {contexts : Entries} (hrep : Repoints (.str old) new contexts g h)
    (c : Nat) : RefersFrom old contexts g c ∨ h.cell c = g.cell c := by
  have hcell := hrep.cell c
  split at hcell
  · next hbody =>
      cases hc : g.cell c with
      | map es =>
          rw [hc, repointedCell, repointed] at hcell
          by_cases hrefers : refersTo (.str old) es = true
          · exact .inl ⟨hbody, es, hc, hrefers⟩
          · exact .inr (by rw [hcell, if_neg hrefers])
      | _ => exact .inr (by rw [hcell, hc]; rfl)
  · exact .inr hcell

theorem RefersFrom.showsChange {contexts : Entries} (hne : old ≠ new)
    (hrep : Repoints (.str old) new contexts g h) {c : Nat} (hc : RefersFrom old contexts g c) :
    h.ShowsChange g c := by
  obtain ⟨hbody, es, hcell, hrefers⟩ := hc
  intro depth above heq
  have hkey : (Label.str old).key ≠ .str new := by simpa [Label.key, Scalar.key] using hne
  rw [hrep.cell c, if_pos hbody, hcell, repointedCell, Graph.unfoldCell, Graph.unfoldCell] at heq
  have hshown := (shown_cluster_iff g depth above es old).2 hrefers
  rw [shownEntries, ← Datum.map.inj heq] at hshown
  have hstill := (shown_cluster_iff h depth above _ old).1 hshown
  rw [refersTo_repointed hkey] at hstill
  cases hstill

/-- Below some containers, the trees that stay are those of the values that lead to no body that is
repointed. -/
theorem unfoldBelow_eq_iff {contexts : Entries} (hne : old ≠ new)
    (hrep : Repoints (.str old) new contexts g h) (hnodup : above.Nodup)
    (hbound : ∀ x ∈ above, x < g.cells.size) (hdepth : depth + above.length = g.cells.size + 1)
    (v : Value) :
    h.unfoldBelow depth above v = g.unfoldBelow depth above v ↔
      g.Avoids (RefersFrom old contexts g) above v :=
  Graph.unfoldBelow_eq_iff (fun _ hc => hc.showsChange hne hrep) (refersFrom_or_stays hrep) hnodup
    hbound hdepth

/-- The body of a context is the repointed one, and nothing else of it changes, exactly if it leads
to no other body that is repointed. -/
theorem unfold_body_iff {contexts : Entries} (hne : old ≠ new)
    (hrep : Repoints (.str old) new contexts g h) {b : Nat} (hb : b ∈ bodyCells contexts) :
    h.unfold (.ref b) = (g.unfold (.ref b)).repointed old new ↔
      ∀ c, RefersFrom old contexts g c → g.Leads [] b c → c = b := by
  rw [Graph.unfold, Graph.unfold, hrep.size, Graph.unfoldBelow_of_notMem h _ List.not_mem_nil,
    Graph.unfoldBelow_of_notMem g _ List.not_mem_nil, hrep.cell b, if_pos hb,
    ← unfoldCell_repointedCell]
  constructor
  · intro heq c hc hbc
    by_contra hcb
    obtain rfl | ⟨a, ha, hac⟩ := hbc.step
    · exact hcb rfl
    have hlt : b < g.cells.size := Graph.lt_size_of_cell rfl fun hmark => by
      rw [hmark] at ha
      exact absurd ha List.not_mem_nil
    have hsame := Graph.unfoldBelow_eq_of_unfoldCell_eq heq (.ref a) (mem_values_repointedCell.2 ha)
    have havoids := (unfoldBelow_eq_iff hne hrep (List.nodup_singleton b)
      (List.forall_mem_singleton.2 hlt) rfl (.ref a)).1 hsame
    exact havoids a c rfl hc hac
  · intro hunshared
    refine Graph.unfoldCell_congr fun v hv => Graph.unfoldBelow_congr _ _ v ?_
    rintro a c rfl hac hc
    have hbc := Graph.Leads.down List.not_mem_nil (mem_values_repointedCell.1 hv) hac
    refine (refersFrom_or_stays hrep c).resolve_left fun hrefers => hc ?_
    rw [hunshared c hrefers hbc]
    exact List.mem_singleton_self b

/-! ### The names of contexts -/

def renamedTo (old new name : String) : String := if name = old then new else name

def relabel (old new : String) (e : Label × Value) : Label × Value :=
  if e.1.key = (Label.str old).key then (.str new, e.2) else e

/-- Whether the old and the new name both are names of contexts. -/
def Collides (old new : String) (contexts : Entries) : Prop :=
  Key.str old ∈ (Table.keys contexts : List Key) ∧ Key.str new ∈ (Table.keys contexts : List Key)

instance (old new : String) (contexts : Entries) : Decidable (Collides old new contexts) :=
  inferInstanceAs (Decidable (_ ∧ _))

theorem relabel_str (old new name : String) (v : Value) :
    relabel old new (.str name, v) = (.str (renamedTo old new name), v) := by
  rw [relabel, renamedTo]
  by_cases hname : name = old
  · rw [if_pos hname, if_pos (congrArg (fun s => (Label.str s).key) hname)]
  · rw [if_neg hname, if_neg (by simpa [Label.key, Scalar.key] using hname)]

theorem keys_map_relabel (old new : String) (es : Entries) :
    (Table.keys (es.map (relabel old new)) : List Key) =
      (Table.keys es : List Key).map fun k => if k = .str old then .str new else k := by
  rw [Table.keys, Table.keys, List.map_map, List.map_map]
  refine List.map_congr_left fun e _ => ?_
  rw [Function.comp_apply, Function.comp_apply, relabel, apply_ite Prod.fst, apply_ite Labelled.key]
  rfl

theorem nodup_relabel_iff (hne : old ≠ new) (hes : (Table.keys es : List Key).Nodup) :
    (Table.keys (es.map (relabel old new)) : List Key).Nodup ↔ ¬ Collides old new es := by
  have hkey : Key.str old ≠ Key.str new := by simpa using hne
  rw [keys_map_relabel, List.nodup_map_iff_inj_on hes]
  constructor
  · rintro hinj ⟨hold, hnew⟩
    exact hkey (hinj _ hold _ hnew (by rw [if_pos rfl, if_neg hkey.symm]))
  · intro hnot k hk l hl heq
    by_cases hkold : k = .str old <;> by_cases hlold : l = .str old
    · rw [hkold, hlold]
    · rw [if_pos hkold, if_neg hlold] at heq
      exact absurd ⟨hkold ▸ hk, heq ▸ hl⟩ hnot
    · rw [if_neg hkold, if_pos hlold] at heq
      exact absurd ⟨hlold ▸ hl, heq ▸ hk⟩ hnot
    · rwa [if_neg hkold, if_neg hlold] at heq

theorem renameKey_eq_map (hne : old ≠ new) (hes : (Table.keys es : List Key).Nodup)
    (hfree : ¬ Collides old new es) : renameKey (.str old) new es = es.map (relabel old new) :=
  Table.ofList_of_nodup ((nodup_relabel_iff hne hes).2 hfree)

theorem length_renameKey_lt (hne : old ≠ new) (hes : (Table.keys es : List Key).Nodup)
    (hcollides : Collides old new es) : (renameKey (.str old) new es).length < es.length := by
  have hlt := Table.length_ofList_lt fun hnodup =>
    (nodup_relabel_iff hne hes).1 hnodup hcollides
  rwa [List.length_map] at hlt

/-! ### All contexts -/

/-- What renaming is meant to keep: every context is where it was, under its own name or the new
one, and its body is as it was, repointed; and the context in use is the same one. -/
structure KeepsContexts (old new : String) (d d' : Document) : Prop where
  count : d'.contexts.length = d.contexts.length
  context : ∀ (i : Nat) (name : String) (v : Value), d.contexts[i]? = some (.str name, v) →
    ∃ v', d'.contexts[i]? = some (.str (renamedTo old new name), v') ∧
      d'.graph.unfold v' = (d.graph.unfold v).repointed old new
  current : ∀ (name : String) (v : Value), d.currentContext = .str name →
    Table.find? (Key.str name) d.contexts = some v →
    d'.currentContext = .str (renamedTo old new name) ∧
      ∃ v', Table.find? (Key.str (renamedTo old new name)) d'.contexts = some v' ∧
        d'.graph.unfold v' = (d.graph.unfold v).repointed old new

/-- No body of a context stands inside the body of another one, if it is repointed. -/
def Document.Unshared (d : Document) (old : String) : Prop :=
  ∀ b ∈ bodyCells d.contexts, ∀ c, RefersFrom old d.contexts d.graph c →
    d.graph.Leads [] b c → c = b

theorem renamedTo_self (old name : String) : renamedTo old old name = name := by
  rw [renamedTo]
  split
  · next h => exact h.symm
  · rfl

theorem repointed_self (old : String) (x : Datum) : x.repointed old old = x := by
  cases x with
  | map entries =>
      rw [Datum.repointed]
      split
      · next h =>
          obtain ⟨v, hfind, hv⟩ := Option.bind_eq_some_iff.1 h
          have hold : v = .str old := Datum.eq_str_of_key? (Datum.str?_eq_some_iff.1 hv)
          rw [Table.put_of_find? (hold ▸ hfind)]
      · rfl
  | _ => rfl

theorem mem_bodyCells_iff {c : Nat} : c ∈ bodyCells es ↔ ∃ l, (l, Value.ref c) ∈ es := by
  rw [bodyCells, List.mem_filterMap]
  constructor
  · rintro ⟨⟨l, v⟩, he, hv⟩
    cases v with
    | ref id => exact ⟨l, Option.some.inj hv ▸ he⟩
    | leaf => cases hv
  · rintro ⟨l, hl⟩
    exact ⟨_, hl, rfl⟩

theorem keepsContexts_self {d : Document} (old : String) : KeepsContexts old old d d where
  count := rfl
  context i name v hv := ⟨v, by rw [renamedTo_self]; exact hv, (repointed_self old _).symm⟩
  current name v hcurrent hv := by
    rw [renamedTo_self]
    exact ⟨hcurrent, v, hv, (repointed_self old _).symm⟩

theorem keepsContexts_withName_iff {d : Document} {body : Value} (hd : d.WellFormed)
    (hne : old ≠ new) (hrep : Repoints (.str old) new d.contexts d.graph h) :
    KeepsContexts old new d (d.withName old new body h) ↔
      ¬ Collides old new d.contexts ∧ d.Unshared old := by
  have hdistinct : (Table.keys d.contexts : List Key).Nodup := hd.distinct .contexts
  constructor
  · intro hkeeps
    have hfree : ¬ Collides old new d.contexts := fun hcollides =>
      Nat.ne_of_lt (length_renameKey_lt hne hdistinct hcollides) hkeeps.count
    refine ⟨hfree, fun b hb => (unfold_body_iff hne hrep hb).1 ?_⟩
    obtain ⟨l, hl⟩ := mem_bodyCells_iff.1 hb
    obtain ⟨name, hname⟩ := hd.named .contexts _ hl
    obtain rfl : l = .str name := hname
    obtain ⟨i, hi⟩ := List.mem_iff_getElem?.1 hl
    obtain ⟨v', hv', hbody⟩ := hkeeps.context i name (.ref b) hi
    rw [Document.withName, renameKey_eq_map hne hdistinct hfree, List.getElem?_map, hi,
      Option.map_some, relabel_str, Option.some.injEq, Prod.mk.injEq] at hv'
    exact hv'.2 ▸ hbody
  · rintro ⟨hfree, hunshared⟩
    have hcontexts : (d.withName old new body h).contexts = d.contexts.map (relabel old new) :=
      renameKey_eq_map hne hdistinct hfree
    have hbody : ∀ name v, (Label.str name, v) ∈ d.contexts →
        h.unfold v = (d.graph.unfold v).repointed old new := by
      intro name v hv
      obtain ⟨b, es, rfl, -⟩ := hd.mappings .contexts _ hv
      have hb := mem_bodyCells_iff.2 ⟨_, hv⟩
      exact (unfold_body_iff hne hrep hb).2 (hunshared b hb)
    constructor
    case count => rw [hcontexts, List.length_map]
    case context =>
      intro i name v hv
      refine ⟨v, ?_, hbody name v (List.mem_of_getElem? hv)⟩
      rw [hcontexts, List.getElem?_map, hv, Option.map_some, relabel_str]
    case current =>
      intro name v hcurrent hv
      have hmem : (Label.str name, v) ∈ d.contexts := by
        obtain ⟨l, hl, hmem⟩ := Table.exists_of_find? hv
        obtain ⟨name', hname'⟩ := hd.named .contexts _ hmem
        obtain rfl : l = .str name' := hname'
        obtain rfl : name' = name := by simpa [Labelled.key, Label.key, Scalar.key] using hl
        exact hmem
      have hthere : (Label.str (renamedTo old new name), v) ∈
          (d.withName old new body h).contexts := by
        rw [hcontexts, ← relabel_str]
        exact List.mem_map_of_mem hmem
      constructor
      · rw [Document.withName, hcurrent, renamedTo, apply_ite Value.str]
        simp [Value.is, Value.key?, Label.key, Scalar.key]
      · exact ⟨v, Table.find?_of_mem (Table.nodup_keys_ofList _) hthere, hbody name v hmem⟩

/-- **Renaming keeps the contexts of a document**, each in its place and with its body, and the one
in use, unless the old and the new name both are names of contexts, or the body of a context that is
repointed stands inside another one. -/
theorem rename_keeps_contexts_iff {d : Document} {old new : String} {body : Value}
    (hd : d.WellFormed) (hcluster : d.clusters = [(.str old, body)]) (hnew : new ≠ "") :
    ∃ d', rename d new = .ok d' ∧ (KeepsContexts old new d d' ↔
      old = new ∨ ¬ Collides old new d.contexts ∧ d.Unshared old) := by
  by_cases hne : old = new
  · subst hne
    exact ⟨d, rename_same hcluster hnew, fun _ => .inl rfl, fun _ => keepsContexts_self old⟩
  · obtain ⟨h, hrep, hok⟩ := rename_single hd hcluster hnew hne
    refine ⟨_, hok, (keepsContexts_withName_iff hd hne hrep).trans ?_⟩
    rw [or_iff_right hne]

/-- A document with two contexts for its cluster, one of which has its name. -/
def twoContexts : Document where
  graph := ⟨#[.map [], .map [(.str "cluster", .str "a"), (.str "user", .str "u")],
    .map [(.str "cluster", .str "a"), (.str "user", .str "v")]]⟩
  clusters := [(.str "a", .ref 0)]
  contexts := [(.str "a", .ref 1), (.str "b", .ref 2)]
  users := []
  currentContext := .str "b"
  extra := []
  keyOrder := []

theorem wellFormed_twoContexts : twoContexts.WellFormed where
  named := by rintro (_ | _ | _) <;> simp [Document.entries, twoContexts]
  distinct := by rintro (_ | _ | _) <;> decide
  mappings := by
    rintro (_ | _ | _) <;> simp [Document.entries, twoContexts, Graph.IsMapping, Graph.cell]
  current := .inr ⟨"b", rfl⟩
  labels := by simp [twoContexts]

theorem rename_keeps_contexts_fresh :
    ∃ d', rename twoContexts "c" = .ok d' ∧ KeepsContexts "a" "c" twoContexts d' := by
  obtain ⟨d', hok, hkeeps⟩ := rename_keeps_contexts_iff wellFormed_twoContexts rfl
    (show "c" ≠ "" by decide)
  refine ⟨d', hok, hkeeps.2 (.inr ⟨by decide, fun b hb c _ hbc => ?_⟩)⟩
  rcases hbc.step with rfl | ⟨e, he, -⟩
  · rfl
  · obtain rfl | rfl : b = 1 ∨ b = 2 := by simpa [bodyCells, twoContexts] using hb
    all_goals simp [twoContexts, Graph.cell, Cell.values] at he

/-- If the new name is that of another context, one of the two is lost. -/
theorem rename_loses_context :
    ¬ ∀ (d : Document) (old new : String) (body : Value), d.WellFormed →
      d.clusters = [(.str old, body)] → new ≠ "" →
        ∃ d', rename d new = .ok d' ∧ KeepsContexts old new d d' := by
  intro hall
  obtain ⟨d', hok, hkeeps⟩ := hall twoContexts "a" "b" _ wellFormed_twoContexts rfl (by decide)
  obtain ⟨h, -, hlost⟩ := rename_single wellFormed_twoContexts rfl (show "b" ≠ "" by decide)
    (by decide)
  cases hok.symm.trans hlost
  have hlt : (renameKey (.str "a") "b" twoContexts.contexts).length < twoContexts.contexts.length :=
    length_renameKey_lt (by decide) (wellFormed_twoContexts.distinct .contexts) (by decide)
  exact Nat.ne_of_lt hlt hkeeps.count

end Kubeconfig
end KubeAtlas
