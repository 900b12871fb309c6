import KubeAtlas.Proofs.Graph.Cells
import KubeAtlas.Proofs.Graph.Unfold
import Mathlib.Data.List.Perm.Subperm
/-!
# What a value shows of a graph

The tree of a value is made of the cells that it leads to, and of nothing else: two graphs that
agree on those show the same tree. A way down is cut where it comes back to a cell, so what matters
below some containers are the ways that avoid them. A way that comes back somewhere can be shortened
to one that does not (`Leads.step`), and a way that never comes back is shorter than the graph is
large; so every cell that a value leads to is shown somewhere in its tree.
-/

namespace KubeAtlas

namespace Cell

def values : Cell → List Value
  | mark | set _ => []
  | list items | tuple items => items
  | map entries => entries.map (·.2)

end Cell

namespace Graph

variable {g h : Graph} {v : Value} {above : List Nat} {a b c : Nat}

theorem unfoldCell_congr {depth depth' : Nat} {k : Cell}
    (hvalues : ∀ v ∈ k.values, h.unfoldBelow depth' above v = g.unfoldBelow depth above v) :
    h.unfoldCell depth' above k = g.unfoldCell depth above k := by
  cases k with
  | list items => exact congrArg Datum.list (List.map_congr_left hvalues)
  | tuple items => exact congrArg Datum.tuple (List.map_congr_left hvalues)
  | map entries =>
      rw [unfoldCell, unfoldCell, List.map_congr_left fun e he => by
        rw [hvalues e.2 (List.mem_map.2 ⟨e, he, rfl⟩)]]
  | _ => rfl

theorem unfoldBelow_eq_of_unfoldCell_eq {depth : Nat} {k : Cell}
    (hcell : h.unfoldCell depth above k = g.unfoldCell depth above k) :
    ∀ v ∈ k.values, h.unfoldBelow depth above v = g.unfoldBelow depth above v := by
  cases k with
  | list items => exact List.map_inj_left.1 (Datum.list.inj hcell)
  | tuple items => exact List.map_inj_left.1 (Datum.tuple.inj hcell)
  | map entries =>
      intro v hv
      obtain ⟨e, he, rfl⟩ := List.mem_map.1 hv
      exact (Prod.mk.inj (List.map_inj_left.1 (Datum.map.inj hcell) e he)).2
  | mark => simp [Cell.values]
  | set items => simp [Cell.values]

/-! ### Ways down -/

/-- A way from one cell down to another that avoids some cells. -/
inductive Leads (g : Graph) (above : List Nat) : Nat → Nat → Prop
  | here {a : Nat} (ha : a ∉ above) : Leads g above a a
  | down {a b c : Nat} (ha : a ∉ above) (hb : .ref b ∈ (g.cell a).values)
      (hc : Leads g above b c) : Leads g above a c

theorem Leads.notMem (hac : g.Leads above a c) : a ∉ above := by
  cases hac with
  | here ha => exact ha
  | down ha hb hc => exact ha

theorem Leads.notMem_last (hac : g.Leads above a c) : c ∉ above := by
  induction hac with
  | here ha => exact ha
  | down ha hb hc ih => exact ih

theorem Leads.mono {below : List Nat} (hac : g.Leads above a c) (hsub : below ⊆ above) :
    g.Leads below a c := by
  induction hac with
  | here ha => exact .here (mt (hsub ·) ha)
  | down ha hb hc ih => exact .down (mt (hsub ·) ha) hb ih

/-- The last time a way is at a cell, it goes on without coming back, or ends there. -/
theorem Leads.after (hac : g.Leads above a c) (b : Nat) :
    g.Leads (b :: above) a c ∨ b = c ∨
      ∃ d, .ref d ∈ (g.cell b).values ∧ g.Leads (b :: above) d c := by
  induction hac with
  | here ha =>
      rename_i a
      by_cases hab : a = b
      · exact .inr (.inl hab.symm)
      · exact .inl (.here (by simp [hab, ha]))
  | down ha hb hc ih =>
      rename_i a d c
      rcases ih with hrest | hdone
      · by_cases hab : a = b
        · exact .inr (.inr ⟨d, hab ▸ hb, hrest⟩)
        · exact .inl (.down (by simp [hab, ha]) hb hrest)
      · exact .inr hdone

theorem Leads.step (hac : g.Leads above a c) :
    a = c ∨ ∃ b, .ref b ∈ (g.cell a).values ∧ g.Leads (a :: above) b c := by
  rcases hac.after a with habsurd | hdone
  · exact absurd List.mem_cons_self habsurd.notMem
  · exact hdone

/-! ### What is shown -/

/-- Below some containers a tree shows nothing of the cells that the value leads to only through
them, and nothing of those that it does not lead to. -/
theorem unfoldBelow_frame (depth : Nat) (above : List Nat) (v : Value)
    (hagree : ∀ a c, v = .ref a → g.Leads above a c → h.cell c = g.cell c) :
    h.unfoldBelow depth above v = g.unfoldBelow depth above v := by
  induction depth generalizing above v with
  | zero => cases v <;> rw [unfoldBelow, unfoldBelow]
  | succ depth ih => cases v with
    | leaf l => rw [unfoldBelow, unfoldBelow]
    | ref a =>
        by_cases ha : a ∈ above
        · rw [unfoldBelow_of_mem h depth ha, unfoldBelow_of_mem g depth ha]
        · rw [unfoldBelow_of_notMem h depth ha, unfoldBelow_of_notMem g depth ha,
            hagree a a rfl (.here ha)]
          refine unfoldCell_congr fun v hv => ih (a :: above) v ?_
          rintro b c rfl hbc
          exact hagree a c rfl (.down ha hv (hbc.mono (List.subset_cons_self a above)))

/-- A tree shows nothing of the cells that the value does not lead to. -/
theorem unfoldBelow_congr (depth : Nat) (above : List Nat) (v : Value)
    (hagree : ∀ a c, v = .ref a → g.Leads [] a c → c ∉ above → h.cell c = g.cell c) :
    h.unfoldBelow depth above v = g.unfoldBelow depth above v :=
  unfoldBelow_frame depth above v fun a c hv hac =>
    hagree a c hv (hac.mono (List.nil_subset above)) hac.notMem_last

/-- A cell of which two graphs show something different, whatever stands above it. -/
def ShowsChange (h g : Graph) (c : Nat) : Prop :=
  ∀ depth above, h.unfoldCell depth above (h.cell c) ≠ g.unfoldCell depth above (g.cell c)

theorem length_le_size (hnodup : above.Nodup) (hbound : ∀ x ∈ above, x < g.cells.size) :
    above.length ≤ g.cells.size := by
  have hsub : above ⊆ List.range g.cells.size := fun x hx => List.mem_range.2 (hbound x hx)
  have hle := (List.subperm_of_subset hnodup hsub).length_le
  rwa [List.length_range] at hle

/-- A tree shows the change of a cell that the value leads to, if cells change in what they show or
not at all. -/
theorem unfoldBelow_ne_of_leads (hchange : ∀ c, h.cell c = g.cell c ∨ h.ShowsChange g c)
    (hc : h.ShowsChange g c) {depth : Nat} (hnodup : above.Nodup)
    (hbound : ∀ x ∈ above, x < g.cells.size) (hdepth : depth + above.length = g.cells.size + 1)
    (hac : g.Leads above a c) :
    h.unfoldBelow depth above (.ref a) ≠ g.unfoldBelow depth above (.ref a) := by
  induction depth generalizing above a with
  | zero =>
      have hle := length_le_size hnodup hbound
      omega
  | succ depth ih =>
      rw [unfoldBelow_of_notMem h depth hac.notMem, unfoldBelow_of_notMem g depth hac.notMem]
      rcases hchange a with hsame | hdiffers
      · rcases hac.step with rfl | ⟨b, hb, hbc⟩
        · exact hc _ _
        · intro heq
          have hlt : a < g.cells.size := lt_size_of_cell rfl fun hmark => by
            rw [hmark] at hb
            exact absurd hb List.not_mem_nil
          rw [hsame] at heq
          refine ih (List.nodup_cons.2 ⟨hac.notMem, hnodup⟩)
            (List.forall_mem_cons.2 ⟨hlt, hbound⟩) ?_ hbc (unfoldBelow_eq_of_unfoldCell_eq heq _ hb)
          rw [List.length_cons]
          omega
      · exact hdiffers _ _

/-- A value that leads to none of some cells, other than through the containers above it. -/
def Avoids (g : Graph) (cells : Nat → Prop) (above : List Nat) (v : Value) : Prop :=
  ∀ a c, v = .ref a → cells c → ¬ g.Leads above a c

/-- If some cells change in what they show and all others stay, the trees that stay are those of the
values that lead to none of them. -/
theorem unfoldBelow_eq_iff {cells : Nat → Prop} (hchange : ∀ c, cells c → h.ShowsChange g c)
    (hstay : ∀ c, cells c ∨ h.cell c = g.cell c) {depth : Nat} (hnodup : above.Nodup)
    (hbound : ∀ x ∈ above, x < g.cells.size) (hdepth : depth + above.length = g.cells.size + 1) :
    h.unfoldBelow depth above v = g.unfoldBelow depth above v ↔ g.Avoids cells above v := by
  constructor
  · rintro heq a c rfl hc hac
    have hcells : ∀ c, h.cell c = g.cell c ∨ h.ShowsChange g c :=
      fun c => (hstay c).symm.imp_right (hchange c)
    exact unfoldBelow_ne_of_leads hcells (hchange c hc) hnodup hbound hdepth hac heq
  · intro havoids
    refine unfoldBelow_frame depth above v fun a c hv hac => ?_
    exact (hstay c).resolve_left fun hc => havoids a c hv hc hac

end Graph
end KubeAtlas
