/-!
# Binary floating point

A double-precision number is kept as its 64 bits, so that equality, signs and not-a-number are
decided by arithmetic on natural numbers and nothing is left to a machine. A finite number is
`significand * 2 ^ exponent`; `ofRatio` goes the other way and rounds a quotient of naturals to the
nearest representable number, a tie to the even significand.
-/

namespace KubeAtlas

structure Binary64 where
  bits : UInt64
deriving DecidableEq, Repr, Inhabited

namespace Binary64

def isNegative (x : Binary64) : Bool := 0x8000000000000000 ≤ x.bits

/-- The significand's leading bit, `2 ^ 52`: the fraction bits lie below it. -/
def leadingBit : Nat := 0x10000000000000

def exponentField (x : Binary64) : Nat := x.bits.toNat / leadingBit % 2048

def fractionField (x : Binary64) : Nat := x.bits.toNat % leadingBit

def isNaN (x : Binary64) : Bool := x.exponentField == 2047 && x.fractionField != 0

def isInfinite (x : Binary64) : Bool := x.exponentField == 2047 && x.fractionField == 0

def isFinite (x : Binary64) : Bool := x.exponentField != 2047

/-- The integer significand of a finite number. -/
def significand (x : Binary64) : Nat :=
  if x.exponentField = 0 then x.fractionField else leadingBit + x.fractionField

/-- The power of two that the significand is scaled by. -/
def exponent (x : Binary64) : Int :=
  if x.exponentField = 0 then -1074 else (x.exponentField : Int) - 1075

def isZero (x : Binary64) : Bool := x.isFinite && x.significand == 0

/-- The sign bit set or clear over a magnitude below `2 ^ 63`. -/
def ofMagnitude (negative : Bool) (magnitude : Nat) : Binary64 :=
  ⟨UInt64.ofNat ((if negative then 0x8000000000000000 else 0) + magnitude)⟩

def infinity (negative : Bool) : Binary64 := ofMagnitude negative 0x7FF0000000000000

def zero (negative : Bool) : Binary64 := ofMagnitude negative 0

def nan : Binary64 := ⟨0x7FF8000000000000⟩

def negate (x : Binary64) : Binary64 := ⟨x.bits ^^^ 0x8000000000000000⟩

end Binary64

/-- A quotient rounded to the nearest natural number, a tie to the even one. -/
def roundDiv (num den : Nat) : Nat :=
  let q := num / den
  let twice := 2 * (num % den)
  if twice < den then q else if den < twice then q + 1 else q + q % 2

namespace Binary64

def log2Ratio (num den : Nat) : Int :=
  let guess : Int := (num.log2 : Int) - den.log2
  let reached :=
    if 0 ≤ guess then den <<< guess.toNat ≤ num else den ≤ num <<< (-guess).toNat
  if reached then guess else guess - 1

/-- The representable number nearest to `num / den`, infinite when the quotient is too large. -/
def ofRatio (negative : Bool) (num den : Nat) : Binary64 :=
  if num = 0 ∨ den = 0 then zero negative
  else
    let q := max (log2Ratio num den - 52) (-1074)
    let m := if 0 ≤ q then roundDiv num (den <<< q.toNat) else roundDiv (num <<< (-q).toNat) den
    let raw := if m < leadingBit then m else (q + 1074).toNat * leadingBit + m
    if 0x7FF0000000000000 ≤ raw then infinity negative else ofMagnitude negative raw

/-- The integer nearest to `n`, `none` if its magnitude is out of range. -/
def ofInt? (n : Int) : Option Binary64 :=
  let x := ofRatio (n < 0) n.natAbs 1
  if x.isFinite then some x else none

/-- The integer part of a finite number, toward zero. -/
def truncate? (x : Binary64) : Option Int :=
  if x.isFinite then
    let magnitude :=
      if 0 ≤ x.exponent then x.significand <<< x.exponent.toNat
      else x.significand >>> (-x.exponent).toNat
    some (if x.isNegative then -(magnitude : Int) else magnitude)
  else none

/-- The integer that the number is, `none` for a fraction, an infinity or not-a-number. -/
def toInt? (x : Binary64) : Option Int :=
  let isWhole := 0 ≤ x.exponent ∨ x.significand % (1 <<< (-x.exponent).toNat) = 0
  if x.isFinite ∧ isWhole then x.truncate? else none

def add (x y : Binary64) : Binary64 := ⟨(Float.ofBits x.bits + Float.ofBits y.bits).toBits⟩

def mul (x y : Binary64) : Binary64 := ⟨(Float.ofBits x.bits * Float.ofBits y.bits).toBits⟩

end Binary64
end KubeAtlas
