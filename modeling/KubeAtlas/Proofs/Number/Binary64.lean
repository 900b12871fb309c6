import KubeAtlas.Number.Binary64
import Mathlib.Tactic.Linarith
import Mathlib.Tactic.Ring
/-!
# Integers out of range

An integer is rounded to fifty-three binary digits. It is out of range from `threshold` on, whatever
its sign (`ofInt?_eq_none_iff`). That is halfway between the greatest finite number and the next
power of two. The significand of the power is even, so the tie goes to it.
-/

namespace KubeAtlas

section RoundDiv

variable {num den : Nat}

theorem div_le_roundDiv : num / den ≤ roundDiv num den := by
  simp only [roundDiv]
  split_ifs <;> omega

theorem roundDiv_le : roundDiv num den ≤ num / den + 1 := by
  simp only [roundDiv]
  split_ifs <;> omega

theorem roundDiv_one : roundDiv num 1 = num := by
  simp [roundDiv, Nat.mod_one]

/-- A quotient is rounded up past an odd number from the midpoint on. -/
theorem lt_roundDiv_iff (num den m : Nat) (hden : 0 < den) (hodd : m % 2 = 1) :
    m < roundDiv num den ↔ (2 * m + 1) * den ≤ 2 * num := by
  have hsplit := Nat.div_add_mod num den
  have hrest := Nat.mod_lt num hden
  set q := num / den with hq
  set r := num % den with hr
  have hround : roundDiv num den =
      if 2 * r < den then q else if den < 2 * r then q + 1 else q + q % 2 := rfl
  rcases lt_trichotomy q m with hlow | rfl | hhigh
  · have hle : roundDiv num den ≤ m := roundDiv_le.trans hlow
    have hbound : den * (q + 1) ≤ den * m := Nat.mul_le_mul_left den hlow
    refine iff_of_false (by omega) ?_
    nlinarith
  · rw [hround]
    have hmul : (2 * q + 1) * den = 2 * (den * q) + den := by ring
    rw [hmul]
    split_ifs <;> omega
  · have hge : m + 1 ≤ roundDiv num den := Nat.le_trans hhigh div_le_roundDiv
    have hbound : den * (m + 1) ≤ den * q := Nat.mul_le_mul_left den hhigh
    refine iff_of_true (by omega) ?_
    nlinarith

end RoundDiv

namespace Binary64

/-- The midpoint between the greatest finite number and `2 ^ 1024`. -/
def threshold : Nat := 2 ^ 1024 - 2 ^ 970

theorem log2Ratio_one {num : Nat} (hnum : num ≠ 0) : log2Ratio num 1 = num.log2 := by
  have hlow : 1 <<< num.log2 ≤ num := by
    rw [Nat.shiftLeft_eq, one_mul]
    exact Nat.log2_self_le hnum
  have hone : Nat.log2 1 = 0 := by decide
  rw [log2Ratio]
  simp [hone, hlow]

/-- The significand that an integer is rounded to, between `2 ^ 52` and `2 ^ 53`. -/
def scaled (num : Nat) : Nat :=
  if 52 ≤ num.log2 then roundDiv num (2 ^ (num.log2 - 52)) else num * 2 ^ (52 - num.log2)

theorem le_scaled {num : Nat} (hnum : num ≠ 0) : leadingBit ≤ scaled num := by
  have hlow := Nat.log2_self_le hnum
  have hleading : leadingBit = 2 ^ 52 := rfl
  rw [scaled, hleading]
  split
  · next hlarge =>
      refine Nat.le_trans ?_ div_le_roundDiv
      rw [Nat.le_div_iff_mul_le (by positivity), ← pow_add]
      exact Nat.le_trans (Nat.pow_le_pow_right (by decide) (by omega)) hlow
  · next hsmall =>
      calc 2 ^ 52 = 2 ^ num.log2 * 2 ^ (52 - num.log2) := by rw [← pow_add]; congr 1; omega
        _ ≤ num * 2 ^ (52 - num.log2) := Nat.mul_le_mul_right _ hlow

theorem scaled_le (num : Nat) : scaled num ≤ 2 * leadingBit := by
  have hhigh : num < 2 ^ (num.log2 + 1) := Nat.lt_log2_self
  have hleading : 2 * leadingBit = 2 ^ 53 := rfl
  rw [scaled, hleading]
  split
  · next hlarge =>
      refine Nat.le_trans roundDiv_le ?_
      rw [Nat.add_one_le_iff, Nat.div_lt_iff_lt_mul (by positivity), ← pow_add]
      exact Nat.lt_of_lt_of_le hhigh (Nat.pow_le_pow_right (by decide) (by omega))
  · next hsmall =>
      calc num * 2 ^ (52 - num.log2) ≤ 2 ^ (num.log2 + 1) * 2 ^ (52 - num.log2) :=
            Nat.mul_le_mul_right _ hhigh.le
        _ = 2 ^ 53 := by rw [← pow_add]; congr 1; omega

/-- The bits of an integer without its sign: what the power of two adds to the significand. -/
theorem ofRatio_one {negative : Bool} {num : Nat} (hnum : num ≠ 0) : ofRatio negative num 1 =
    if 2047 * leadingBit ≤ (num.log2 + 1022) * leadingBit + scaled num then infinity negative
    else ofMagnitude negative ((num.log2 + 1022) * leadingBit + scaled num) := by
  have hexponent : max ((num.log2 : Int) - 52) (-1074) = num.log2 - 52 := by omega
  have hscaled : (if 0 ≤ (num.log2 : Int) - 52 then
      roundDiv num (1 <<< ((num.log2 : Int) - 52).toNat)
      else roundDiv (num <<< (-((num.log2 : Int) - 52)).toNat) 1) = scaled num := by
    rw [scaled]
    by_cases hlarge : 52 ≤ num.log2
    · rw [if_pos (by omega), if_pos hlarge, Nat.shiftLeft_eq, one_mul]
      congr 2
      omega
    · rw [if_neg (by omega), if_neg hlarge, roundDiv_one, Nat.shiftLeft_eq]
      congr 2
      omega
  have hpower : ((num.log2 : Int) - 52 + 1074).toNat = num.log2 + 1022 := by omega
  have hnot : ¬ scaled num < leadingBit := Nat.not_lt.2 (le_scaled hnum)
  rw [ofRatio, if_neg (by omega), log2Ratio_one hnum]
  simp only [hexponent, hscaled, hpower, if_neg hnot]
  rfl

theorem isFinite_infinity (negative : Bool) : (infinity negative).isFinite = false := by
  cases negative <;> decide

theorem isFinite_ofMagnitude {negative : Bool} {magnitude : Nat}
    (h : magnitude < 2047 * leadingBit) : (ofMagnitude negative magnitude).isFinite = true := by
  have hleading : leadingBit = 0x10000000000000 := rfl
  have hfield : (ofMagnitude negative magnitude).exponentField = magnitude / leadingBit := by
    rw [exponentField, ofMagnitude, UInt64.toNat_ofNat']
    rw [hleading] at h ⊢
    cases negative <;> simp only [Bool.false_eq_true, if_false, if_true] <;> omega
  rw [isFinite, hfield, bne_iff_ne]
  rw [hleading] at h ⊢
  omega

theorem ofRatio_one_isFinite (negative : Bool) {num : Nat} (hnum : num ≠ 0) :
    (ofRatio negative num 1).isFinite = false ↔
      2047 * leadingBit ≤ (num.log2 + 1022) * leadingBit + scaled num := by
  rw [ofRatio_one hnum]
  split
  · next hlarge => exact iff_of_true (isFinite_infinity negative) hlarge
  · next hsmall =>
      refine iff_of_false ?_ hsmall
      rw [isFinite_ofMagnitude (Nat.not_le.1 hsmall)]
      decide

/-- The significand comes to the next power of two only where the exponent is greatest, so that the
threshold lies in its last binade. -/
theorem le_bits_iff {num : Nat} (hnum : num ≠ 0) :
    2047 * leadingBit ≤ (num.log2 + 1022) * leadingBit + scaled num ↔
      threshold ≤ num := by
  rw [threshold]
  have hleading : leadingBit = 2 ^ 52 := rfl
  have hpower : 2 ^ 1024 = 2 ^ 54 * 2 ^ 970 := by
    rw [← pow_add]
  have hle := scaled_le num
  have hge := le_scaled hnum
  rcases Nat.lt_trichotomy num.log2 1023 with hsmall | hedge | hlarge
  · have hbound := (Nat.log2_lt hnum).1 hsmall
    have hhalf : 2 * 2 ^ 1023 = 2 ^ 1024 := by
      rw [← pow_succ']
    have hmul : (num.log2 + 1022) * leadingBit ≤ 2044 * leadingBit :=
      Nat.mul_le_mul_right _ (by omega)
    refine iff_of_false (by omega) ?_
    generalize 2 ^ 970 = unit at hpower hhalf
    omega
  · have hden : 2 ^ 971 = 2 * 2 ^ 970 := by
      rw [← pow_succ']
    have hscaled : scaled num = roundDiv num (2 ^ 971) := by
      rw [scaled, hedge, if_pos (by decide)]
    have hround := lt_roundDiv_iff num (2 ^ 971) (2 ^ 53 - 1)
      (by positivity) (by decide)
    rw [← hscaled, hden] at hround
    rw [hedge]
    generalize 2 ^ 970 = unit at hpower hround
    omega
  · have hbound := (Nat.le_log2 hnum).1 hlarge
    have hmul : 2046 * leadingBit ≤ (num.log2 + 1022) * leadingBit :=
      Nat.mul_le_mul_right _ (by omega)
    refine iff_of_true (by omega) ?_
    generalize 2 ^ 970 = unit at hpower
    omega

/-- The integers that are no real numbers are those from the threshold on, of either sign. -/
theorem ofInt?_eq_none_iff (n : Int) : ofInt? n = none ↔ threshold ≤ n.natAbs := by
  by_cases hzero : n.natAbs = 0
  · have hsome : ofInt? n ≠ none := by
      rw [Int.natAbs_eq_zero.1 hzero]
      decide
    refine iff_of_false hsome ?_
    rw [threshold]
    have hpower : 2 ^ 1024 = 2 ^ 54 * 2 ^ 970 := by
      rw [← pow_add]
    have hunit : 0 < 2 ^ 970 := by positivity
    generalize 2 ^ 970 = unit at hpower hunit
    omega
  · rw [← le_bits_iff hzero, ← ofRatio_one_isFinite (n < 0) hzero, ofInt?]
    cases (ofRatio (n < 0) n.natAbs 1).isFinite <;> simp

end Binary64
end KubeAtlas
