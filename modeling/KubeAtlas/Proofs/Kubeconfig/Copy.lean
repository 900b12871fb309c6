import KubeAtlas.Kubeconfig.Text
import KubeAtlas.Proofs.Kubeconfig.Reading
import KubeAtlas.Proofs.Yaml.Alike
/-!
# Copies of documents

A document whose values are copies is written like the original. Every operation that writing is
made of looks at keys, at what counts as present and at the order of entries, and a copy has all of
these from the original. The relation between the cells grows on the way, since the written form
takes cells for its lists and entries on both sides.
-/

namespace KubeAtlas

variable {R S : Nat → Nat → Prop}

namespace Table

variable {es es' ts ts' : List (Label × Value)} {l l' : Label} {v w : Value}

theorem find?_copied (hes : List.Forall₂ (EntryCopied R) es es') (k : Key) :
    Option.Rel (Value.Copied R) (find? k es) (find? k es') := by
  induction hes with
  | nil => exact .none
  | @cons e e' _ _ he _ ih =>
      have hkey : (Labelled.key e'.1 : Key) = Labelled.key e.1 := he.1.key_eq
      rw [find?_cons, find?_cons, hkey]
      split
      · exact .some he.2
      · exact ih

theorem put_copied (hl : l.Copied R l') (hv : v.Copied R w)
    (hes : List.Forall₂ (EntryCopied R) es es') :
    List.Forall₂ (EntryCopied R) (put l v es) (put l' w es') := by
  have hkey : (Labelled.key l' : Key) = Labelled.key l := hl.key_eq
  induction hes with
  | nil => exact .cons ⟨hl, hv⟩ .nil
  | @cons e e' rest rest' he hrest ih =>
      have hkey' : (Labelled.key e'.1 : Key) = Labelled.key e.1 := he.1.key_eq
      by_cases hsame : (Labelled.key e.1 : Key) = Labelled.key l
      · rw [put_cons_of_eq l e.1 v e.2 rest hsame,
          put_cons_of_eq l' e'.1 w e'.2 rest' (hkey'.trans (hsame.trans hkey.symm))]
        exact .cons ⟨he.1, hv⟩ hrest
      · rw [put_cons_of_ne l e.1 v e.2 rest hsame,
          put_cons_of_ne l' e'.1 w e'.2 rest' (by rwa [hkey', hkey])]
        exact .cons he ih

theorem erase_copied (hes : List.Forall₂ (EntryCopied R) es es') (k : Key) :
    List.Forall₂ (EntryCopied R) (erase k es) (erase k es') := by
  induction hes with
  | nil => exact .nil
  | @cons e e' _ _ he hrest ih =>
      have hkey : (Labelled.key e'.1 : Key) = Labelled.key e.1 := he.1.key_eq
      rw [erase, erase, hkey]
      split
      · exact hrest
      · exact .cons he ih

theorem putAll_copied (hes : List.Forall₂ (EntryCopied R) es es')
    (hts : List.Forall₂ (EntryCopied R) ts ts') :
    List.Forall₂ (EntryCopied R) (putAll es ts) (putAll es' ts') := by
  induction hes generalizing ts ts' with
  | nil => exact hts
  | cons he _ ih => exact ih (put_copied he.1 he.2 hts)

end Table

theorem EntryCopied.extend {e e' : Label × Value} (hRS : ∀ a b, R a b → S a b)
    (he : EntryCopied R e e') : EntryCopied S e e' :=
  he.mono fun a _ => hRS a

theorem Value.Copied.extend {v w : Value} (hRS : ∀ a b, R a b → S a b) (hv : v.Copied R w) :
    v.Copied S w :=
  hv.mono fun a _ => hRS a

namespace Kubeconfig

variable {g h : Graph} {es es' top : Entries} {d d' : Document}

/-! ### Parts -/

theorem Part.writeEntries_copied (p : Part) (hcopy : Graph.Copied R g h)
    (hes : List.Forall₂ (EntryCopied R) es es') :
    ∃ S : Nat → Nat → Prop, (∀ a b, R a b → S a b) ∧
      Graph.Copied S (p.writeEntries g es).2 (p.writeEntries h es').2 ∧
      List.Forall₂ (Value.Copied S) (p.writeEntries g es).1 (p.writeEntries h es').1 := by
  induction es generalizing R g h es' with
  | nil =>
      cases hes
      exact ⟨R, fun _ _ => id, hcopy, .nil⟩
  | cons e rest ih =>
      cases hes with
      | @cons _ e' _ rest' he hrest =>
          have hcell : (Cell.map [(.str "name", .leaf e.1), (.str p.bodyKey, e.2)]).Copied R
              (.map [(.str "name", .leaf e'.1), (.str p.bodyKey, e'.2)]) :=
            .map (.cons ⟨.scalar _, .leaf he.1⟩ (.cons ⟨.scalar _, he.2⟩ .nil))
          have hpair : ∀ a b, R a b → Graph.withPair R g.cells.size h.cells.size a b :=
            fun _ _ => Or.inl
          obtain ⟨S, hRS, hgraph, hitems⟩ := ih (hcopy.alloc hcell)
            (hrest.imp fun _ _ => EntryCopied.extend hpair)
          exact ⟨S, fun a b hab => hRS a b (hpair a b hab), hgraph,
            .cons (.ref (hRS _ _ (.inr ⟨rfl, rfl⟩))) hitems⟩

theorem Part.write_copied (p : Part) (hcopy : Graph.Copied R g h)
    (hes : List.Forall₂ (EntryCopied R) es es') :
    ∃ S : Nat → Nat → Prop, (∀ a b, R a b → S a b) ∧
      Graph.Copied S (p.write g es).2 (p.write h es').2 ∧
      (p.write g es).1.Copied S (p.write h es').1 := by
  obtain ⟨S, hRS, hgraph, hitems⟩ := p.writeEntries_copied hcopy hes
  exact ⟨_, fun a b hab => .inl (hRS a b hab), hgraph.alloc (.list hitems), .ref (.inr ⟨rfl, rfl⟩)⟩

theorem ite_copied {c c' : Bool} {v w v' w' : Value} (hc : c' = c) (hv : v.Copied R v')
    (hw : w.Copied R w') : (if c then v else w).Copied R (if c' then v' else w') := by
  subst hc
  split
  · exact hv
  · exact hw

namespace Document

/-! ### The top level -/

structure Copied (R : Nat → Nat → Prop) (d d' : Document) : Prop where
  graph : Graph.Copied R d.graph d'.graph
  entries : ∀ p, List.Forall₂ (EntryCopied R) (d.entries p) (d'.entries p)
  current : d.currentContext.Copied R d'.currentContext
  extra : List.Forall₂ (EntryCopied R) d.extra d'.extra
  keyOrder : List.Forall₂ (Value.Copied R) d.keyOrder d'.keyOrder

theorem Copied.hadKey_eq (hd : Copied R d d') {l l' : Label} (hl : l.Copied S l') :
    d'.hadKey l' = d.hadKey l := by
  have hkeys := hd.keyOrder
  rw [hadKey, hadKey]
  generalize d.keyOrder = vs, d'.keyOrder = ws at hkeys
  induction hkeys with
  | nil => rfl
  | cons hv _ ih =>
      rw [List.any_cons, List.any_cons, ih, Value.is, Value.is, hv.key?_eq, hl.key_eq]

theorem Copied.managed (hd : Copied R d d') :
    ∃ S : Nat → Nat → Prop, (∀ a b, R a b → S a b) ∧
      Graph.Copied S d.managed.2 d'.managed.2 ∧
      List.Forall₂ (EntryCopied S) d.managed.1 d'.managed.1 := by
  obtain ⟨S₁, hRS₁, hgraph₁, hclusters⟩ :=
    Part.clusters.write_copied hd.graph (hd.entries .clusters)
  obtain ⟨S₂, hS₁₂, hgraph₂, hcontexts⟩ := Part.contexts.write_copied hgraph₁
    ((hd.entries .contexts).imp fun _ _ => EntryCopied.extend hRS₁)
  obtain ⟨S₃, hS₂₃, hgraph₃, husers⟩ := Part.users.write_copied hgraph₂
    ((hd.entries .users).imp fun _ _ =>
      EntryCopied.extend fun a b hab => hS₁₂ a b (hRS₁ a b hab))
  have hRS : ∀ a b, R a b → S₃ a b := fun a b hab => hS₂₃ a b (hS₁₂ a b (hRS₁ a b hab))
  have hcurrent := hd.current.extend hRS
  refine ⟨S₃, hRS, hgraph₃, .cons ⟨.scalar _, ?_⟩ (.cons ⟨.scalar _, ?_⟩
    (.cons ⟨.scalar _, husers⟩ (.cons ⟨.scalar _, ?_⟩ .nil)))⟩
  · exact (hclusters.extend hS₁₂).extend hS₂₃
  · exact hcontexts.extend hS₂₃
  · exact ite_copied (hgraph₃.isTruthy_eq hcurrent) hcurrent (.leaf (.scalar _))

theorem Copied.written (hd : Copied R d d') :
    ∃ S : Nat → Nat → Prop, (∀ a b, R a b → S a b) ∧
      Graph.Copied S d.written.2 d'.written.2 ∧
      List.Forall₂ (EntryCopied S) d.written.1 d'.written.1 := by
  obtain ⟨S, hRS, hgraph, hmanaged⟩ := hd.managed
  refine ⟨S, hRS, hgraph, ?_⟩
  show List.Forall₂ (EntryCopied S)
    (d.managed.1.filter fun e => d.hadKey e.1 || d.managed.2.isTruthy e.2)
    (d'.managed.1.filter fun e => d'.hadKey e.1 || d'.managed.2.isTruthy e.2)
  refine List.rel_filter (fun e e' he => ?_) hmanaged
  simp only [hd.hadKey_eq he.1, hgraph.isTruthy_eq he.2]

variable {extra extra' out out' left left' done rest : Entries} {keys keys' : List Value}

theorem arrange_copied (hextra : List.Forall₂ (EntryCopied R) extra extra')
    (hkeys : List.Forall₂ (Value.Copied R) keys keys')
    (hout : List.Forall₂ (EntryCopied R) out out')
    (hleft : List.Forall₂ (EntryCopied R) left left')
    (harrange : arrange extra out left keys = .ok (done, rest)) :
    ∃ done' rest', arrange extra' out' left' keys' = .ok (done', rest') ∧
      List.Forall₂ (EntryCopied R) done done' ∧ List.Forall₂ (EntryCopied R) rest rest' := by
  induction hkeys generalizing out out' left left' with
  | nil =>
      cases harrange
      exact ⟨out', left', rfl, hout, hleft⟩
  | @cons v w _ _ hv _ ih =>
      cases hv with
      | ref hab => cases harrange
      | @leaf l l' hl =>
          rw [arrange] at harrange
          rw [arrange, hl.key_eq]
          have hfind := Table.find?_copied hleft l.key
          generalize Table.find? l.key left = x, Table.find? l.key left' = y at hfind harrange
          cases hfind with
          | some hxy =>
              exact ih (Table.put_copied hl hxy hout) (Table.erase_copied hleft _) harrange
          | none =>
              have hfind := Table.find?_copied hextra l.key
              simp only at harrange ⊢
              generalize Table.find? l.key extra = x, Table.find? l.key extra' = y
                at hfind harrange
              cases hfind with
              | some hxy => exact ih (Table.put_copied hl hxy hout) hleft harrange
              | none => exact ih hout hleft harrange

theorem addMissing_copied (hextra : List.Forall₂ (EntryCopied R) extra extra')
    (hout : List.Forall₂ (EntryCopied R) out out') :
    List.Forall₂ (EntryCopied R) (addMissing extra out) (addMissing extra' out') := by
  rw [addMissing, addMissing]
  induction hextra generalizing out out' with
  | nil => exact hout
  | @cons e e' _ _ he _ ih =>
      have hkey : (Labelled.key e'.1 : Key) = Labelled.key e.1 := he.1.key_eq
      have hfind := Table.find?_copied hout (Labelled.key e.1)
      rw [List.foldl_cons, List.foldl_cons]
      refine ih ?_
      rw [Table.contains, Table.contains, hkey]
      generalize Table.find? (Labelled.key e.1 : Key) out = x,
        Table.find? (Labelled.key e.1 : Key) out' = y at hfind
      cases hfind with
      | some _ => exact hout
      | none => exact Table.put_copied he.1 he.2 hout

theorem Copied.toMapping (hd : Copied R d d') (hmapping : d.toMapping = .ok (top, g)) :
    ∃ (S : Nat → Nat → Prop) (top' : Entries) (h : Graph), d'.toMapping = .ok (top', h) ∧
      Graph.Copied S g h ∧ List.Forall₂ (EntryCopied S) top top' := by
  obtain ⟨S, hRS, hgraph, hwritten⟩ := hd.written
  rw [Document.toMapping] at hmapping
  obtain ⟨⟨done, rest⟩, harrange, hmapping⟩ := bind_eq_ok_iff.1 hmapping
  cases hmapping
  have hextra := hd.extra.imp fun _ _ => EntryCopied.extend hRS
  obtain ⟨done', rest', harrange', hdone, hrest⟩ := arrange_copied hextra
    (hd.keyOrder.imp fun _ _ => Value.Copied.extend hRS) .nil hwritten harrange
  refine ⟨S, _, _, ?_, hgraph, Table.putAll_copied hrest (addMissing_copied hextra hdone)⟩
  rw [Document.toMapping]
  exact bind_eq_ok_iff.2 ⟨_, harrange', rfl⟩

theorem serialize_eq_ok_iff {text : String} :
    serialize d = .ok text ↔ ∃ top g, d.toMapping = .ok (top, g) ∧
      Yaml.write (g.alloc (.map top)).2 (.ref g.cells.size) = .ok text := by
  rw [Kubeconfig.serialize, bind_eq_ok_iff]
  constructor
  · rintro ⟨⟨top, g⟩, hmapping, hwrite⟩
    refine ⟨top, g, hmapping, ?_⟩
    simp only at hwrite
    split at hwrite
    · next written hwritten =>
        cases hwrite
        exact hwritten
    · cases hwrite
    · cases hwrite
  · rintro ⟨top, g, hmapping, hwrite⟩
    have hid : (g.alloc (.map top)).1 = g.cells.size := rfl
    refine ⟨(top, g), hmapping, ?_⟩
    simp only [hid, hwrite]
    rfl

end Document

/-! ### What a document shows -/

structure View where
  clusters : List (Datum × Datum)
  contexts : List (Datum × Datum)
  users : List (Datum × Datum)
  currentContext : Datum
  extra : List (Datum × Datum)
  keyOrder : List Datum

def View.listed (w : View) : View where
  clusters := Datum.listedEntries w.clusters
  contexts := Datum.listedEntries w.contexts
  users := Datum.listedEntries w.users
  currentContext := w.currentContext.listed
  extra := Datum.listedEntries w.extra
  keyOrder := Datum.listedItems w.keyOrder

def Document.view (d : Document) : View where
  clusters := trees d.graph d.clusters
  contexts := trees d.graph d.contexts
  users := trees d.graph d.users
  currentContext := d.graph.unfold d.currentContext
  extra := trees d.graph d.extra
  keyOrder := d.keyOrder.map d.graph.unfold

theorem trees_copied (hcopy : Graph.Copied R g h) (hes : List.Forall₂ (EntryCopied R) es es') :
    trees h es' = Datum.listedEntries (trees g es) := by
  rw [Datum.listedEntries_eq_map, trees, trees]
  induction hes with
  | nil => rfl
  | cons he _ ih =>
      rw [List.map_cons, List.map_cons, List.map_cons, ih, he.1.datum_eq, hcopy.unfold_eq he.2]

theorem Document.Copied.view_eq (hd : Document.Copied R d d') : d'.view = d.view.listed := by
  have hkeys : d'.keyOrder.map d'.graph.unfold =
      Datum.listedItems (d.keyOrder.map d.graph.unfold) := by
    have horder := hd.keyOrder
    rw [Datum.listedItems_eq_map]
    generalize d.keyOrder = vs, d'.keyOrder = ws at horder
    induction horder with
    | nil => rfl
    | cons hv _ ih => rw [List.map_cons, List.map_cons, List.map_cons, ih, hd.graph.unfold_eq hv]
  have hparts := fun p => trees_copied hd.graph (hd.entries p)
  have hclusters : trees d'.graph d'.clusters = _ := hparts .clusters
  have hcontexts : trees d'.graph d'.contexts = _ := hparts .contexts
  have husers : trees d'.graph d'.users = _ := hparts .users
  rw [view, view, View.listed, hkeys, hd.graph.unfold_eq hd.current,
    trees_copied hd.graph hd.extra, hclusters, hcontexts, husers]
  rfl

end Kubeconfig
end KubeAtlas
