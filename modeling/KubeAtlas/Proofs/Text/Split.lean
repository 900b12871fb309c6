import KubeAtlas.Text.Split
/-!
# Pieces and separators

Splitting undoes joining. At the first separator a text has one way to be divided, and at all of
them it has the pieces that it was joined of, as long as no separator stands in a piece. What is
taken from a text up to a mark does not depend on what follows the mark.
-/

namespace KubeAtlas.Text

theorem takeWhile_append_cons {α : Type} {p : α → Bool} {b : α} (hb : p b = false)
    (xs ys : List α) : (xs ++ b :: ys).takeWhile p = xs.takeWhile p := by
  induction xs with
  | nil => simp [hb]
  | cons x xs ih =>
      rw [List.cons_append, List.takeWhile_cons, List.takeWhile_cons, ih]

theorem dropWhile_append_cons {α : Type} {p : α → Bool} {b : α} (hb : p b = false)
    (xs ys : List α) : (xs ++ b :: ys).dropWhile p = xs.dropWhile p ++ b :: ys := by
  induction xs with
  | nil => simp [hb]
  | cons x xs ih =>
      rw [List.cons_append, List.dropWhile_cons, List.dropWhile_cons, ih]
      split <;> rfl

theorem takeWhile_ne_append {mark : Char} {s tail : List Char} (hs : mark ∉ s)
    (htail : tail = [] ∨ tail.head? = some mark) : (s ++ tail).takeWhile (· != mark) = s := by
  have hend : tail.takeWhile (· != mark) = [] := by
    rcases htail with rfl | hhead
    · rfl
    · obtain ⟨rest, rfl⟩ := List.head?_eq_some_iff.1 hhead
      exact List.takeWhile_cons_of_neg (by simp)
  rw [List.takeWhile_append_of_pos, hend, List.append_nil]
  intro c hc
  simpa using fun h : c = mark => hs (h ▸ hc)

/-! ### Marks -/

section Marks

variable {α : Type} {mark : α} {xs xs' ys ys' : List α}

/-- A text that is divided by a mark has one front without the mark. -/
theorem append_cons_inj (hxs : mark ∉ xs) (hxs' : mark ∉ xs')
    (h : xs ++ mark :: ys = xs' ++ mark :: ys') : xs = xs' ∧ ys = ys' := by
  induction xs generalizing xs' with
  | nil =>
      match xs' with
      | [] => exact ⟨rfl, (List.cons.inj h).2⟩
      | x :: xs' => exact absurd (by rw [(List.cons.inj h).1]; exact List.mem_cons_self) hxs'
  | cons x xs ih =>
      match xs' with
      | [] => exact absurd (by rw [← (List.cons.inj h).1]; exact List.mem_cons_self) hxs
      | x' :: xs' =>
          obtain ⟨hhead, hrest⟩ := List.cons.inj h
          have htail := ih (fun hmem => hxs (List.mem_cons_of_mem x hmem))
            (fun hmem => hxs' (List.mem_cons_of_mem x' hmem)) hrest
          exact ⟨by rw [hhead, htail.1], htail.2⟩

theorem append_cons_inj_right (hys : mark ∉ ys) (hys' : mark ∉ ys')
    (h : xs ++ mark :: ys = xs' ++ mark :: ys') : xs = xs' ∧ ys = ys' := by
  have hreverse : ys.reverse ++ mark :: xs.reverse = ys'.reverse ++ mark :: xs'.reverse := by
    simpa using congrArg List.reverse h
  obtain ⟨hback, hfront⟩ := append_cons_inj (by simpa using hys) (by simpa using hys') hreverse
  exact ⟨List.reverse_inj.1 hfront, List.reverse_inj.1 hback⟩

end Marks

/-! ### Pieces -/

theorem splitFirst?_eq_some_iff {separator : Char} {s before after : List Char} :
    splitFirst? separator s = some (before, after) ↔
      s = before ++ separator :: after ∧ separator ∉ before := by
  induction s generalizing before after with
  | nil => simp [splitFirst?]
  | cons c rest ih =>
      rw [splitFirst?]
      by_cases hc : c = separator
      · subst hc
        rw [if_pos (beq_self_eq_true c)]
        cases before with
        | nil => simp
        | cons d before => simp +contextual
      · rw [if_neg (by simpa using hc), Option.map_eq_some_iff]
        cases before with
        | nil => simp [hc]
        | cons d before =>
            simp only [Prod.exists, Prod.mk.injEq, List.cons.injEq, List.cons_append, ih]
            constructor
            · rintro ⟨b, a, ⟨hrest, hb⟩, ⟨rfl, rfl⟩, rfl⟩
              exact ⟨⟨rfl, hrest⟩, by simp [hb, Ne.symm hc]⟩
            · rintro ⟨⟨rfl, hrest⟩, hmem⟩
              exact ⟨before, after, ⟨hrest, fun h => hmem (List.mem_cons_of_mem _ h)⟩,
                ⟨rfl, rfl⟩, rfl⟩

theorem splitFirst?_eq_none_iff {separator : Char} {s : List Char} :
    splitFirst? separator s = none ↔ separator ∉ s := by
  induction s with
  | nil => simp [splitFirst?]
  | cons c rest ih =>
      rw [splitFirst?, List.mem_cons, not_or]
      by_cases hc : c = separator
      · simp [hc]
      · rw [if_neg (by simpa using hc), Option.map_eq_none_iff, ih,
          and_iff_right (Ne.symm hc)]

theorem splitAll_eq_splitOn (separator : Char) (s : List Char) :
    splitAll separator s = s.splitOn separator := by
  induction s with
  | nil => rfl
  | cons c rest ih =>
      rw [List.splitOn_eq_splitOnP] at ih ⊢
      rw [splitAll, ih, List.splitOnP_cons_eq_if_modifyHead]
      cases hrest : rest.splitOnP (· == separator) with
      | nil => exact absurd (ih.trans hrest) (splitAll_ne_nil separator rest)
      | cons piece pieces => rfl

theorem splitAll_intercalate {separator : Char} {pieces : List (List Char)}
    (hpieces : ∀ piece ∈ pieces, separator ∉ piece) (hne : pieces ≠ []) :
    splitAll separator ([separator].intercalate pieces) = pieces := by
  rw [splitAll_eq_splitOn]
  exact List.splitOn_intercalate separator hpieces hne

theorem not_mem_intercalate {c separator : Char} (hc : c ≠ separator) {pieces : List (List Char)}
    (hpieces : ∀ piece ∈ pieces, c ∉ piece) : c ∉ [separator].intercalate pieces := by
  match pieces with
  | [] => simp [List.intercalate]
  | [piece] => simpa [List.intercalate] using hpieces
  | piece :: next :: rest =>
      have hrest := not_mem_intercalate hc fun p hp => hpieces p (List.mem_cons_of_mem piece hp)
      rw [List.intercalate_cons_cons]
      simp [hc, hpieces piece, hrest]

theorem filter_intercalate {keep : Char → Bool} {separator : Char} (hkeep : keep separator = true)
    (pieces : List (List Char)) :
    ([separator].intercalate pieces).filter keep =
      [separator].intercalate (pieces.map (·.filter keep)) := by
  match pieces with
  | [] => rfl
  | [piece] => simp [List.intercalate]
  | piece :: next :: rest =>
      have hrest := filter_intercalate hkeep (next :: rest)
      rw [List.map_cons] at hrest
      rw [List.intercalate_cons_cons, List.filter_append, List.filter_append, hrest, List.map_cons,
        List.map_cons, List.intercalate_cons_cons, List.filter_cons_of_pos hkeep, List.filter_nil]

end KubeAtlas.Text
