import Mathlib
import KubeAtlas.CommandLine.Echo
/-!
# What an output leaves out

An output that is no terminal shows a text as it stands exactly if no style sequence is in it
(`echo_eq_self_iff`); otherwise what it shows is shorter. A text without an escape character has no
style sequence.
-/

namespace KubeAtlas.CommandLine

def BeginsStyle (s : List Char) : Prop :=
  ∃ marks letter after, s = '\x1b' :: '[' :: (marks ++ letter :: after) ∧
    (∀ c ∈ marks, isStyleMark c = true) ∧ letter.isAlpha = true

def HasStyle (s : List Char) : Prop := ∃ before after, s = before ++ after ∧ BeginsStyle after

theorem not_isStyleMark_of_isAlpha {c : Char} (h : c.isAlpha = true) : isStyleMark c = false := by
  have hbounds : 65 ≤ c.val ∧ c.val ≤ 90 ∨ 97 ≤ c.val ∧ c.val ≤ 122 := by
    simpa [Char.isAlpha, Char.isUpper, Char.isLower] using h
  have hsemicolon : c ≠ ';' := by
    rintro rfl
    exact absurd hbounds (by decide)
  have hquestion : c ≠ '?' := by
    rintro rfl
    exact absurd hbounds (by decide)
  have hdigit : c.isDigit = false := by
    rw [Bool.eq_false_iff]
    intro hdigit
    have hrange : 48 ≤ c.val ∧ c.val ≤ 57 := by simpa [Char.isDigit] using hdigit
    have hle : c.val.toNat ≤ 57 := UInt32.le_iff_toNat_le.1 hrange.2
    have hge : 65 ≤ c.val.toNat := by
      rcases hbounds with ⟨h65, -⟩ | ⟨h97, -⟩
      · exact UInt32.le_iff_toNat_le.1 h65
      · have h97 : 97 ≤ c.val.toNat := UInt32.le_iff_toNat_le.1 h97
        omega
    omega
  simp [isStyleMark, hsemicolon, hquestion, hdigit]

theorem styleLength?_eq_none_iff (s : List Char) : styleLength? s = none ↔ ¬ BeginsStyle s := by
  rw [styleLength?.eq_def]
  split
  · next rest =>
      cases hrest : rest.dropWhile isStyleMark with
      | nil =>
          apply iff_of_true rfl
          rintro ⟨marks, letter, after, hs, hmarks, hletter⟩
          have hmark := List.dropWhile_eq_nil_iff.1 hrest letter (by simp_all)
          rw [not_isStyleMark_of_isAlpha hletter] at hmark
          cases hmark
      | cons letter after =>
          have hsplit : rest = rest.takeWhile isStyleMark ++ letter :: after := by
            rw [← hrest, List.takeWhile_append_dropWhile]
          show (if letter.isAlpha = true then _ else none) = none ↔ _
          by_cases hletter : letter.isAlpha = true
          · rw [if_pos hletter]
            apply iff_of_false (fun h => nomatch h)
            apply not_not_intro
            refine ⟨_, letter, after, congrArg (fun r => '\x1b' :: '[' :: r) hsplit, ?_, hletter⟩
            intro c hc
            exact List.mem_takeWhile_imp hc
          · rw [if_neg hletter]
            apply iff_of_true rfl
            rintro ⟨marks, other, others, hs, hmarks, hother⟩
            obtain rfl : rest = marks ++ other :: others := by simpa using hs
            have hdrop : (marks ++ other :: others).dropWhile isStyleMark = other :: others := by
              rw [List.dropWhile_append_of_pos hmarks, List.dropWhile_cons_of_neg]
              simp [not_isStyleMark_of_isAlpha hother]
            rw [hdrop, List.cons.injEq] at hrest
            exact hletter (hrest.1 ▸ hother)
  · next hother =>
      apply iff_of_true rfl
      rintro ⟨marks, letter, after, rfl, -⟩
      exact hother _ rfl

theorem hasStyle_cons (c : Char) (s : List Char) :
    HasStyle (c :: s) ↔ BeginsStyle (c :: s) ∨ HasStyle s := by
  constructor
  · rintro ⟨before, after, hs, hafter⟩
    cases before with
    | nil => exact .inl (hs ▸ hafter)
    | cons b before => exact .inr ⟨before, after, (List.cons.inj hs).2, hafter⟩
  · rintro (h | ⟨before, after, rfl, hafter⟩)
    · exact ⟨[], c :: s, rfl, h⟩
    · exact ⟨c :: before, after, rfl, hafter⟩

theorem not_hasStyle_nil : ¬ HasStyle [] := by
  rintro ⟨before, after, hs, marks, letter, rest, rfl, -⟩
  simp at hs

theorem not_hasStyle_of_forall {s : List Char} (h : ∀ c ∈ s, c ≠ '\x1b') : ¬ HasStyle s := by
  rintro ⟨before, after, rfl, marks, letter, rest, rfl, -⟩
  exact h '\x1b' (by simp) rfl

theorem withoutStyles_sublist (skip : Nat) (s : List Char) :
    (withoutStyles skip s).Sublist s := by
  induction s generalizing skip with
  | nil => cases skip <;> exact List.Sublist.refl []
  | cons c s ih =>
      cases skip with
      | succ skip => exact (ih skip).cons c
      | zero =>
          rw [withoutStyles]
          cases styleLength? (c :: s) with
          | none => exact (ih 0).cons_cons c
          | some n => exact (ih n).cons c

theorem withoutStyles_eq_self_iff (s : List Char) : withoutStyles 0 s = s ↔ ¬ HasStyle s := by
  induction s with
  | nil => exact iff_of_true rfl not_hasStyle_nil
  | cons c s ih =>
      rw [withoutStyles, hasStyle_cons]
      cases hstyle : styleLength? (c :: s) with
      | none =>
          have hbegins := (styleLength?_eq_none_iff _).1 hstyle
          show c :: withoutStyles 0 s = c :: s ↔ _
          rw [List.cons.injEq, ih]
          simp [hbegins]
      | some n =>
          have hbegins : BeginsStyle (c :: s) := by
            by_contra hnot
            rw [(styleLength?_eq_none_iff _).2 hnot] at hstyle
            cases hstyle
          apply iff_of_false _ (not_not_intro (.inl hbegins))
          intro hsame
          have hlength := congrArg List.length hsame
          have hle := (withoutStyles_sublist n s).length_le
          change (withoutStyles n s).length = s.length + 1 at hlength
          omega

/-- **What is shown as it stands.** A terminal shows every text as it stands, anything else the
texts without style sequences. -/
theorem echo_eq_self_iff (terminal : Bool) (text : String) :
    echo terminal text = text ↔ terminal = true ∨ ¬ HasStyle text.toList := by
  rw [echo]
  by_cases hterminal : terminal = true
  · simp [hterminal]
  · rw [if_neg hterminal, ← withoutStyles_eq_self_iff]
    constructor
    · intro h
      right
      simpa using congrArg String.toList h
    · rintro (h | h)
      · exact absurd h hterminal
      · rw [h, String.ofList_toList]

theorem echo_sublist (terminal : Bool) (text : String) :
    (echo terminal text).toList.Sublist text.toList := by
  rw [echo]
  split
  · exact List.Sublist.refl _
  · rw [String.toList_ofList]
    exact withoutStyles_sublist 0 _

end KubeAtlas.CommandLine
