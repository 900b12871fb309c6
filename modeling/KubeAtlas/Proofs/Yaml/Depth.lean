import KubeAtlas.Proofs.Except
import KubeAtlas.Proofs.Graph.Cells
import KubeAtlas.Yaml.Write
import Mathlib.Data.List.Basic
/-!
# How deep a walk goes

The walks through a graph have a bound on their depth, which is there so that they end. It is never
met: a walk goes into a cell once, so that it stands below fewer cells than there were left when it
began. Hence a walk with a greater bound is the same walk, and two graphs of different sizes can be
walked with the same bound.
-/

namespace KubeAtlas

/-- A tuple without items. It is written without an identity. -/
def Cell.isUnit : Cell → Bool
  | .tuple [] => true
  | _ => false

theorem getD_of_lt {marks : Array Bool} {id : Nat} (hid : id < marks.size) (x y : Bool) :
    marks.getD id x = marks.getD id y := by
  rw [Array.getD_eq_getD_getElem?, Array.getD_eq_getD_getElem?, Array.getElem?_eq_getElem hid]
  rfl

def unmarked (marks : Array Bool) : Nat := marks.toList.count false

theorem unmarked_mark {marks : Array Bool} {id : Nat} (hid : marks.getD id true = false) :
    unmarked (marks.setIfInBounds id true) + 1 = unmarked marks := by
  rw [Array.getD_eq_getD_getElem?] at hid
  cases hget : marks[id]? with
  | none => simp [hget] at hid
  | some mark =>
      obtain ⟨hlt, hmark⟩ := Array.getElem?_eq_some_iff.1 hget
      rw [hget, Option.getD_some] at hid
      subst hid
      have hpos : 0 < marks.toList.count false :=
        List.count_pos_iff.2 (by rw [← hmark]; exact Array.getElem_mem_toList hlt)
      rw [unmarked, unmarked, Array.toList_setIfInBounds, List.count_set (by simpa using hlt),
        Array.getElem_toList, hmark, if_pos (beq_self_eq_true _), if_neg (by decide)]
      omega

namespace Yaml

/-! ### The survey -/

namespace Survey

variable {g : Graph} {s s' : Survey} {depth : Nat}

theorem labels_eq_foldlM (s : Survey) (ls : List Label) : s.labels ls = ls.foldlM label s := by
  induction ls generalizing s with
  | nil => rfl
  | cons l rest ih =>
      rw [labels, List.foldlM_cons]
      exact congrArg _ (funext ih)

def entry (g : Graph) (depth : Nat) (s : Survey) (e : Label × Value) : Except Failure Survey :=
  s.label e.1 >>= fun s => value g depth s e.2

theorem several_eq_foldlM (g : Graph) (depth : Nat) (s : Survey) (items : List Value) :
    several g depth s items = items.foldlM (value g depth) s := by
  induction items generalizing s with
  | nil => rw [several]; rfl
  | cons v rest ih =>
      rw [several, List.foldlM_cons]
      exact congrArg _ (funext ih)

theorem entriesOf_eq_foldlM (g : Graph) (depth : Nat) (s : Survey)
    (entries : List (Label × Value)) :
    entriesOf g depth s entries = entries.foldlM (entry g depth) s := by
  induction entries generalizing s with
  | nil => rw [entriesOf]; rfl
  | cons e rest ih =>
      rw [entriesOf, List.foldlM_cons, entry, bind_assoc]
      refine congrArg _ (funext fun s => ?_)
      exact congrArg _ (funext ih)

/-- What is walked of a container that is reached for the first time. -/
def contents (g : Graph) (depth : Nat) (s : Survey) : Cell → Except Failure Survey
  | .mark => pure s
  | .list items | .tuple items => items.foldlM (value g depth) s
  | .set items => items.foldlM label s
  | .map entries => entries.foldlM (entry g depth) s

theorem value_ref (g : Graph) (depth : Nat) (s : Survey) (id : Nat) :
    value g (depth + 1) s (.ref id) =
      if (g.cell id).isUnit then pure s
      else if (s.reach id).1 then contents g depth (s.reach id).2 (g.cell id)
      else pure (s.reach id).2 := by
  rw [value]
  cases g.cell id with
  | tuple items =>
      cases items <;> rcases s.reach id with ⟨_ | _, s'⟩ <;>
        simp [Cell.isUnit, contents, several_eq_foldlM]
  | _ =>
      rcases s.reach id with ⟨_ | _, s'⟩ <;>
        simp [Cell.isUnit, contents, several_eq_foldlM, labels_eq_foldlM, entriesOf_eq_foldlM]

/-! A walk only ever marks cells. -/

theorem reach_unmarked (s : Survey) (id : Nat) :
    unmarked (s.reach id).2.reached + (if (s.reach id).1 then 1 else 0) = unmarked s.reached := by
  rw [reach]
  cases hid : s.reached.getD id true with
  | true =>
      rw [if_pos rfl]
      simp only
      split <;> rfl
  | false => exact unmarked_mark hid

theorem foldlM_unmarked_le {α : Type} {f : Survey → α → Except Failure Survey} {xs : List α}
    (hf : ∀ x ∈ xs, ∀ {s s' : Survey}, f s x = .ok s' → unmarked s'.reached ≤ unmarked s.reached)
    (h : xs.foldlM f s = .ok s') : unmarked s'.reached ≤ unmarked s.reached := by
  induction xs generalizing s with
  | nil =>
      cases h
      exact Nat.le_refl _
  | cons x rest ih =>
      rw [List.foldlM_cons] at h
      obtain ⟨t, hfirst, hrest⟩ := bind_eq_ok_iff.1 h
      obtain ⟨hx, hlater⟩ := List.forall_mem_cons.1 hf
      exact Nat.le_trans (ih hlater hrest) (hx hfirst)

mutual

theorem label_unmarked_le (l : Label) {s s' : Survey} (h : s.label l = .ok s') :
    unmarked s'.reached ≤ unmarked s.reached := by
  have hreach : ∀ id, unmarked (s.reach id).2.reached ≤ unmarked s.reached := fun id =>
    (reach_unmarked s id) ▸ Nat.le_add_right _ _
  cases l with
  | scalar v =>
      cases v with
      | foreign name => cases h
      | int n =>
          rw [label, scalar] at h
          split at h
          · cases h
            exact Nat.le_refl _
          · cases h
      | _ =>
          cases h
          exact Nat.le_refl _
  | date id _ | moment id _ =>
      cases h
      exact hreach id
  | tuple id items =>
      cases items with
      | nil =>
          cases h
          exact Nat.le_refl _
      | cons l rest =>
          have hid := hreach id
          rw [label] at h
          · rcases hfirst : s.reach id with ⟨_ | _, t⟩
            · rw [hfirst] at h hid
              cases h
              exact hid
            · rw [hfirst] at h hid
              exact Nat.le_trans (labels_unmarked_le (l :: rest) h) hid
          · simp

theorem labels_unmarked_le (ls : List Label) {s s' : Survey} (h : s.labels ls = .ok s') :
    unmarked s'.reached ≤ unmarked s.reached := by
  cases ls with
  | nil =>
      cases h
      exact Nat.le_refl _
  | cons l rest =>
      rw [labels] at h
      obtain ⟨t, hfirst, hrest⟩ := bind_eq_ok_iff.1 h
      exact Nat.le_trans (labels_unmarked_le rest hrest) (label_unmarked_le l hfirst)

end

theorem entry_unmarked_le
    (hvalue : ∀ {s s' : Survey} {v : Value}, value g depth s v = .ok s' →
      unmarked s'.reached ≤ unmarked s.reached)
    {e : Label × Value} (h : entry g depth s e = .ok s') :
    unmarked s'.reached ≤ unmarked s.reached := by
  obtain ⟨t, hlabel, hrest⟩ := bind_eq_ok_iff.1 h
  exact Nat.le_trans (hvalue hrest) (label_unmarked_le e.1 hlabel)

theorem contents_unmarked_le
    (hvalue : ∀ {s s' : Survey} {v : Value}, value g depth s v = .ok s' →
      unmarked s'.reached ≤ unmarked s.reached)
    {c : Cell} (h : contents g depth s c = .ok s') :
    unmarked s'.reached ≤ unmarked s.reached := by
  cases c with
  | mark =>
      cases h
      exact Nat.le_refl _
  | list items => exact foldlM_unmarked_le (fun v _ => hvalue) h
  | tuple items => exact foldlM_unmarked_le (fun v _ => hvalue) h
  | set items => exact foldlM_unmarked_le (fun l _ => label_unmarked_le l) h
  | map entries => exact foldlM_unmarked_le (fun e _ => entry_unmarked_le hvalue) h

theorem value_unmarked_le {v : Value} (h : value g depth s v = .ok s') :
    unmarked s'.reached ≤ unmarked s.reached := by
  induction depth generalizing s s' v with
  | zero =>
      cases v with
      | leaf l =>
          rw [value] at h
          exact label_unmarked_le l h
      | ref id =>
          rw [value] at h
          cases h
          exact Nat.le_refl _
  | succ depth ih =>
      cases v with
      | leaf l =>
          rw [value] at h
          exact label_unmarked_le l h
      | ref id =>
          have hreach : unmarked (s.reach id).2.reached ≤ unmarked s.reached :=
            reach_unmarked s id ▸ Nat.le_add_right _ _
          rw [value_ref] at h
          split at h
          · cases h
            exact Nat.le_refl _
          · split at h
            · exact Nat.le_trans (contents_unmarked_le ih h) hreach
            · cases h
              exact hreach

/-! A bound that is above the number of cells left is as good as a greater one. -/

theorem foldlM_congr {α : Type} {f f' : Survey → α → Except Failure Survey} {xs : List α}
    (hsame : ∀ x ∈ xs, ∀ s : Survey, unmarked s.reached < depth → f s x = f' s x)
    (hf : ∀ x ∈ xs, ∀ {s s' : Survey}, f' s x = .ok s' → unmarked s'.reached ≤ unmarked s.reached)
    (hs : unmarked s.reached < depth) : xs.foldlM f s = xs.foldlM f' s := by
  induction xs generalizing s with
  | nil => rfl
  | cons x rest ih =>
      obtain ⟨hx, hrest⟩ := List.forall_mem_cons.1 hsame
      obtain ⟨hfx, hfrest⟩ := List.forall_mem_cons.1 hf
      rw [List.foldlM_cons, List.foldlM_cons, hx s hs]
      rcases hstep : f' s x with e | t
      · rfl
      · exact ih hrest hfrest (Nat.lt_of_le_of_lt (hfx hstep) hs)

theorem contents_succ
    (hvalue : ∀ (s : Survey) (v : Value), unmarked s.reached < depth →
      value g (depth + 1) s v = value g depth s v)
    (hs : unmarked s.reached < depth) (c : Cell) :
    contents g (depth + 1) s c = contents g depth s c := by
  cases c with
  | mark => rfl
  | list items =>
      exact foldlM_congr (fun v _ s hs => hvalue s v hs) (fun v _ => value_unmarked_le) hs
  | tuple items =>
      exact foldlM_congr (fun v _ s hs => hvalue s v hs) (fun v _ => value_unmarked_le) hs
  | set items => rfl
  | map entries =>
      refine foldlM_congr (fun e _ s hs => ?_) (fun e _ => entry_unmarked_le value_unmarked_le) hs
      rw [entry, entry]
      rcases hlabel : s.label e.1 with _ | t
      · rfl
      · exact hvalue t e.2 (Nat.lt_of_le_of_lt (label_unmarked_le e.1 hlabel) hs)

theorem value_succ (hs : unmarked s.reached < depth) (v : Value) :
    value g (depth + 1) s v = value g depth s v := by
  induction depth generalizing s v with
  | zero => exact absurd hs (Nat.not_lt_zero _)
  | succ depth ih =>
      cases v with
      | leaf l => rw [value, value]
      | ref id =>
          rw [value_ref, value_ref]
          cases hfirst : (s.reach id).1 with
          | false => rfl
          | true =>
              -- one cell fewer is left below, so that the smaller bound is enough there
              have hreach := reach_unmarked s id
              rw [hfirst, if_pos rfl] at hreach
              rw [if_pos rfl, if_pos rfl, contents_succ (fun s v hs => ih hs v) (by omega)]

theorem value_of_le {deeper : Nat} (hdepth : depth ≤ deeper) (hs : unmarked s.reached < depth)
    (v : Value) : value g deeper s v = value g depth s v := by
  induction hdepth with
  | refl => rfl
  | step hle ih => rw [value_succ (Nat.lt_of_lt_of_le hs hle), ih]

end Survey
/-! ### The shape -/

namespace Shape

variable {g : Graph} {p q : Progress} {depth : Nat} {α β : Type}

/-- Goes through a list, carrying along what was written out. -/
def thread (f : Progress → α → β × Progress) (p : Progress) : List α → List β × Progress
  | [] => ([], p)
  | x :: rest => ((f p x).1 :: (thread f (f p x).2 rest).1, (thread f (f p x).2 rest).2)

theorem ofLabels_eq_thread (p : Progress) (ls : List Label) :
    ofLabels p ls = thread ofLabel p ls := by
  induction ls generalizing p with
  | nil => rfl
  | cons l rest ih => simp only [ofLabels, ih, thread]

theorem ofValues_eq_thread (g : Graph) (depth : Nat) (p : Progress) (items : List Value) :
    ofValues g depth p items = thread (ofValue g depth) p items := by
  induction items generalizing p with
  | nil => rw [ofValues]; rfl
  | cons v rest ih =>
      rw [ofValues]
      simp only [ih, thread]

def ofEntry (g : Graph) (depth : Nat) (p : Progress) (e : Label × Value) :
    (Shape × Shape) × Progress :=
  (((ofLabel p e.1).1, (ofValue g depth (ofLabel p e.1).2 e.2).1),
    (ofValue g depth (ofLabel p e.1).2 e.2).2)

theorem ofEntries_eq_thread (g : Graph) (depth : Nat) (p : Progress)
    (entries : List (Label × Value)) :
    ofEntries g depth p entries = thread (ofEntry g depth) p entries := by
  induction entries generalizing p with
  | nil => rw [ofEntries]; rfl
  | cons e rest ih =>
      rw [ofEntries]
      simp only [ih, thread, ofEntry]

def ofContents (g : Graph) (depth : Nat) (anchor : Option String) (p : Progress) :
    Cell → Shape × Progress
  | .mark => (.sequence anchor [], p)
  | .list items | .tuple items =>
    (.sequence anchor (thread (ofValue g depth) p items).1, (thread (ofValue g depth) p items).2)
  | .set items =>
    (.mapping anchor .set ((thread ofLabel p items).1.map fun i => (i, ofScalar .null)),
      (thread ofLabel p items).2)
  | .map entries =>
    (.mapping anchor .map (thread (ofEntry g depth) p entries).1,
      (thread (ofEntry g depth) p entries).2)

theorem ofValue_ref (g : Graph) (depth : Nat) (p : Progress) (id : Nat) :
    ofValue g (depth + 1) p (.ref id) =
      if (g.cell id).isUnit then (.sequence none [], p)
      else match p.reach id with
        | (.inl again, p) => (again, p)
        | (.inr anchor, p) => ofContents g depth anchor p (g.cell id) := by
  rw [ofValue]
  cases g.cell id with
  | tuple items =>
      cases items <;> rcases p.reach id with ⟨_ | _, q⟩ <;>
        simp [Cell.isUnit, ofContents, ofValues_eq_thread]
  | _ =>
      rcases p.reach id with ⟨_ | _, q⟩ <;>
        simp [Cell.isUnit, ofContents, ofValues_eq_thread, ofLabels_eq_thread, ofEntries_eq_thread]

/-- A later state of writing: the same cells, and no more of them left. -/
def Progress.Follows (p q : Progress) : Prop :=
  q.written.size = p.written.size ∧ unmarked q.written ≤ unmarked p.written

theorem Progress.Follows.refl (p : Progress) : p.Follows p := ⟨rfl, Nat.le_refl _⟩

theorem Progress.Follows.trans {r : Progress} (hpq : p.Follows q) (hqr : q.Follows r) :
    p.Follows r :=
  ⟨hqr.1.trans hpq.1, Nat.le_trans hqr.2 hpq.2⟩

theorem Progress.reach_first {id : Nat} {anchor : Option String}
    (hstep : p.reach id = (.inr anchor, q)) (hid : id < p.written.size) :
    q.written.size = p.written.size ∧ unmarked q.written + 1 = unmarked p.written := by
  rw [reach] at hstep
  cases hwritten : p.written.getD id false with
  | true =>
      rw [hwritten] at hstep
      cases hstep
  | false =>
      rw [hwritten] at hstep
      cases hstep
      exact ⟨Array.size_setIfInBounds, unmarked_mark ((getD_of_lt hid true false).trans hwritten)⟩

theorem Progress.reach_follows (p : Progress) (id : Nat) : p.Follows (p.reach id).2 := by
  by_cases hid : id < p.written.size
  · rcases hstep : p.reach id with ⟨again | anchor, q⟩
    · rw [reach] at hstep
      cases hwritten : p.written.getD id false <;> rw [hwritten] at hstep <;> cases hstep
      exact Follows.refl p
    · obtain ⟨hsize, hleft⟩ := reach_first hstep hid
      exact ⟨hsize, hleft ▸ Nat.le_succ _⟩
  · rw [reach]
    cases p.written.getD id false with
    | true => exact Follows.refl p
    | false => exact ⟨Array.size_setIfInBounds, by simp [Array.setIfInBounds, hid]⟩

theorem thread_follows {f : Progress → α → β × Progress} {xs : List α}
    (hf : ∀ x ∈ xs, ∀ p : Progress, p.Follows (f p x).2) (p : Progress) :
    p.Follows (thread f p xs).2 := by
  induction xs generalizing p with
  | nil => exact Progress.Follows.refl p
  | cons x rest ih =>
      obtain ⟨hx, hrest⟩ := List.forall_mem_cons.1 hf
      exact (hx p).trans (ih hrest _)

mutual

theorem ofLabel_follows (l : Label) (p : Progress) : p.Follows (ofLabel p l).2 := by
  have hreach := p.reach_follows
  cases l with
  | scalar v => exact Progress.Follows.refl p
  | date id _ | moment id _ =>
      have hid := hreach id
      rw [ofLabel]
      rcases hstep : p.reach id with ⟨_ | _, q⟩ <;> rw [hstep] at hid <;> exact hid
  | tuple id items =>
      cases items with
      | nil => exact Progress.Follows.refl p
      | cons l rest =>
          have hid := hreach id
          rw [ofLabel]
          · rcases hstep : p.reach id with ⟨_ | _, q⟩ <;> rw [hstep] at hid
            · exact hid
            · exact hid.trans (ofLabels_follows (l :: rest) q)
          · simp

theorem ofLabels_follows (ls : List Label) (p : Progress) : p.Follows (ofLabels p ls).2 := by
  cases ls with
  | nil => exact Progress.Follows.refl p
  | cons l rest => exact (ofLabel_follows l p).trans (ofLabels_follows rest _)

end

theorem ofEntry_follows (hvalue : ∀ (v : Value) (p : Progress), p.Follows (ofValue g depth p v).2)
    (e : Label × Value) (p : Progress) : p.Follows (ofEntry g depth p e).2 :=
  (ofLabel_follows e.1 p).trans (hvalue e.2 _)

theorem ofContents_follows
    (hvalue : ∀ (v : Value) (p : Progress), p.Follows (ofValue g depth p v).2)
    (anchor : Option String) (p : Progress) (c : Cell) :
    p.Follows (ofContents g depth anchor p c).2 := by
  cases c with
  | mark => exact Progress.Follows.refl p
  | list items => exact thread_follows (fun v _ => hvalue v) p
  | tuple items => exact thread_follows (fun v _ => hvalue v) p
  | set items => exact thread_follows (fun l _ => ofLabel_follows l) p
  | map entries => exact thread_follows (fun e _ => ofEntry_follows hvalue e) p

theorem ofValue_follows (depth : Nat) (v : Value) (p : Progress) :
    p.Follows (ofValue g depth p v).2 := by
  induction depth generalizing v p with
  | zero =>
      cases v with
      | leaf l => rw [ofValue]; exact ofLabel_follows l p
      | ref id => rw [ofValue]; exact Progress.Follows.refl p
  | succ depth ih =>
      cases v with
      | leaf l => rw [ofValue]; exact ofLabel_follows l p
      | ref id =>
          have hreach := p.reach_follows id
          rw [ofValue_ref]
          split
          · exact Progress.Follows.refl p
          · rcases hstep : p.reach id with ⟨_ | anchor, q⟩ <;> rw [hstep] at hreach
            · exact hreach
            · exact hreach.trans (ofContents_follows ih anchor q _)

theorem thread_congr {f f' : Progress → α → β × Progress} {xs : List α} {size : Nat}
    (hsame : ∀ x ∈ xs, ∀ p : Progress, p.written.size = size → unmarked p.written < depth →
      f p x = f' p x)
    (hf : ∀ x ∈ xs, ∀ p : Progress, p.Follows (f' p x).2) (hsize : p.written.size = size)
    (hp : unmarked p.written < depth) : thread f p xs = thread f' p xs := by
  induction xs generalizing p with
  | nil => rfl
  | cons x rest ih =>
      obtain ⟨hx, hrest⟩ := List.forall_mem_cons.1 hsame
      obtain ⟨hfx, hfrest⟩ := List.forall_mem_cons.1 hf
      obtain ⟨hsize', hle⟩ := hfx p
      rw [thread, thread, hx p hsize hp,
        ih hrest hfrest (hsize'.trans hsize) (Nat.lt_of_le_of_lt hle hp)]

theorem ofContents_succ
    (hvalue : ∀ (p : Progress) (v : Value), p.written.size = g.cells.size →
      unmarked p.written < depth → ofValue g (depth + 1) p v = ofValue g depth p v)
    (hsize : p.written.size = g.cells.size) (hp : unmarked p.written < depth)
    (anchor : Option String) (c : Cell) :
    ofContents g (depth + 1) anchor p c = ofContents g depth anchor p c := by
  have hitems : ∀ items : List Value,
      thread (ofValue g (depth + 1)) p items = thread (ofValue g depth) p items := fun items =>
    thread_congr (fun v _ p => hvalue p v) (fun v _ => ofValue_follows depth v) hsize hp
  cases c with
  | mark => rfl
  | list items => rw [ofContents, ofContents, hitems]
  | tuple items => rw [ofContents, ofContents, hitems]
  | set items => rfl
  | map entries =>
      have hentries : thread (ofEntry g (depth + 1)) p entries =
          thread (ofEntry g depth) p entries := by
        refine thread_congr (fun e _ p hsize hp => ?_)
          (fun e _ => ofEntry_follows (ofValue_follows depth) e) hsize hp
        obtain ⟨hsize', hle⟩ := ofLabel_follows e.1 p
        rw [ofEntry, ofEntry, hvalue _ e.2 (hsize'.trans hsize) (Nat.lt_of_le_of_lt hle hp)]
      rw [ofContents, ofContents, hentries]

theorem ofValue_succ (hsize : p.written.size = g.cells.size) (hp : unmarked p.written < depth)
    (v : Value) : ofValue g (depth + 1) p v = ofValue g depth p v := by
  induction depth generalizing p v with
  | zero => exact absurd hp (Nat.not_lt_zero _)
  | succ depth ih =>
      cases v with
      | leaf l => rw [ofValue, ofValue]
      | ref id =>
          rw [ofValue_ref, ofValue_ref]
          rcases hstep : p.reach id with ⟨again | anchor, q⟩
          · rfl
          · by_cases hlt : id < g.cells.size
            · obtain ⟨hsize', hleft⟩ := Progress.reach_first hstep (hsize ▸ hlt)
              simp only [ofContents_succ (fun p v hsize hp => ih hsize hp v) (hsize'.trans hsize)
                (by omega)]
            · -- beyond the graph nothing is marked, but nothing is there to walk either
              rw [Graph.cell_of_size_le (Nat.le_of_not_lt hlt)]
              rfl

theorem ofValue_of_le {deeper : Nat} (hdepth : depth ≤ deeper)
    (hsize : p.written.size = g.cells.size) (hp : unmarked p.written < depth) (v : Value) :
    ofValue g deeper p v = ofValue g depth p v := by
  induction hdepth with
  | refl => rfl
  | step hle ih => rw [ofValue_succ hsize (Nat.lt_of_lt_of_le hp hle), ih]

end Shape

/-- A shape does not depend on the bound, if it is above the number of cells. -/
theorem Shape.ofGraph_eq {g : Graph} {depth : Nat} (hdepth : g.cells.size + 1 ≤ depth) (v : Value) :
    Shape.ofGraph g v = Survey.value g depth (Survey.start g) v >>= fun survey =>
      pure (Shape.ofValue g depth ⟨survey, Array.replicate g.cells.size false⟩ v).1 := by
  have hstart : unmarked (Array.replicate g.cells.size false) < g.cells.size + 1 := by
    simp [unmarked]
  rw [Shape.ofGraph, Survey.value_of_le hdepth hstart]
  refine congrArg _ (funext fun survey => ?_)
  rw [Shape.ofValue_of_le hdepth (Array.size_replicate ..) hstart]

end Yaml
end KubeAtlas
