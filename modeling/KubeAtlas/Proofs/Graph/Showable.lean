import KubeAtlas.Proofs.Graph.Labels
import KubeAtlas.Proofs.Graph.Unfold
/-!
# Documents without long integers

An integer of very many digits can be read, in a notation other than decimal, but it can be neither
shown nor written. A graph is showable if it holds none, which is a property of its labels. Then
every value of it can be shown.
-/

namespace KubeAtlas

def Label.IsShowable (l : Label) : Prop := l.datum.isShowable = true

/-- A value that is no label with a long integer. What it refers to is left open. -/
def Value.IsShowable : Value → Prop
  | leaf l => l.IsShowable
  | ref _ => True

def Cell.IsShowable : Cell → Prop
  | mark => True
  | list items | tuple items => ∀ v ∈ items, v.IsShowable
  | set items => ∀ l ∈ items, l.IsShowable
  | map entries => ∀ e ∈ entries, e.1.IsShowable ∧ e.2.IsShowable

theorem Label.isShowable_str (s : String) : (Label.str s).IsShowable := rfl

theorem Value.isShowable_iff (v : Value) : v.IsShowable ↔ v.All Label.IsShowable := by
  cases v <;> rfl

theorem Cell.isShowable_iff (c : Cell) : c.IsShowable ↔ c.All Label.IsShowable := by
  cases c with
  | mark | set items => rfl
  | list items | tuple items => exact forall₂_congr fun v _ => v.isShowable_iff
  | map entries => exact forall₂_congr fun e _ => and_congr_right fun _ => e.2.isShowable_iff

theorem Datum.areShowable_iff {items : List Datum} :
    areShowable items = true ↔ ∀ d ∈ items, d.isShowable = true := by
  induction items with
  | nil => simp [areShowable]
  | cons d rest ih => rw [areShowable, Bool.and_eq_true, ih, List.forall_mem_cons]

theorem Datum.entriesShowable_iff {entries : List (Datum × Datum)} :
    entriesShowable entries = true ↔
      ∀ e ∈ entries, e.1.isShowable = true ∧ e.2.isShowable = true := by
  induction entries with
  | nil => simp [entriesShowable]
  | cons e rest ih =>
      rw [entriesShowable, Bool.and_eq_true, Bool.and_eq_true, ih, List.forall_mem_cons]

theorem Label.areShowable_data {items : List Label} :
    Datum.areShowable (Label.data items) = true ↔ ∀ l ∈ items, l.IsShowable := by
  rw [data_eq_map, Datum.areShowable_iff, List.forall_mem_map]
  rfl

namespace Graph

/-- A graph without long integers. -/
def IsShowable (g : Graph) : Prop := ∀ id, (g.cell id).IsShowable

variable {g : Graph} {v : Value}

theorem isShowable_iff : g.IsShowable ↔ g.All Label.IsShowable :=
  forall_congr' fun id => (g.cell id).isShowable_iff

/-! ### What a showable graph shows -/

theorem isShowable_unfoldCell {depth : Nat} {above : List Nat} {c : Cell}
    (hvalue : ∀ v : Value, v.IsShowable → (g.unfoldBelow depth above v).isShowable = true)
    (hc : c.IsShowable) : (g.unfoldCell depth above c).isShowable = true := by
  cases c with
  | mark => rfl
  | list items =>
      exact Datum.areShowable_iff.2 (List.forall_mem_map.2 fun v hv => hvalue v (hc v hv))
  | tuple items =>
      exact Datum.areShowable_iff.2 (List.forall_mem_map.2 fun v hv => hvalue v (hc v hv))
  | set items => exact Label.areShowable_data.2 hc
  | map entries =>
      exact Datum.entriesShowable_iff.2 (List.forall_mem_map.2 fun e he =>
        ⟨(hc e he).1, hvalue e.2 (hc e he).2⟩)

theorem isShowable_unfoldBelow (hg : g.IsShowable) (depth : Nat) (above : List Nat)
    (hv : v.IsShowable) : (g.unfoldBelow depth above v).isShowable = true := by
  induction depth generalizing above v with
  | zero => cases v with
    | leaf l => rw [unfoldBelow]; exact hv
    | ref id => rw [unfoldBelow]; rfl
  | succ depth ih => cases v with
    | leaf l => rw [unfoldBelow]; exact hv
    | ref id =>
        by_cases hid : id ∈ above
        · rw [unfoldBelow_of_mem g depth hid]
          rfl
        · rw [unfoldBelow_of_notMem g depth hid]
          exact isShowable_unfoldCell (fun v hv => ih _ hv) (hg id)

theorem isShowable_unfold (hg : g.IsShowable) (hv : v.IsShowable) :
    (g.unfold v).isShowable = true :=
  isShowable_unfoldBelow hg _ _ hv

end Graph
end KubeAtlas
