import KubeAtlas.Number.Binary64
import KubeAtlas.Text.Digit
/-!
# The shortest decimal of a binary number

A finite number is written with the fewest significant digits that still read back as itself, and
of those with the decimal nearest to it, a tie going to the even digit. The reals that round to a
number form an interval, its ends included exactly when the significand is even. If any decimal of a
given precision lies in it, then so does one of the number's two neighbours on that decimal grid;
hence it is enough to try the two neighbours at one digit, two digits, and so on, and seventeen
digits always suffice.
-/

namespace KubeAtlas.Binary64

/-- A positive decimal: the value is `0.d₁d₂… * 10 ^ point` for the decimal digits of `digits`. -/
structure Decimal where
  digits : Nat
  point : Int
deriving DecidableEq, Repr

/-- The number of decimal digits, none for zero. -/
def decimalLength (n : Nat) : Nat := if n = 0 then 0 else (Nat.toDigits 10 n).length

/-- The power of ten just above a positive quotient. -/
def decimalPoint (num den : Nat) : Int :=
  if den ≤ num then decimalLength (num / den) else 1 - (decimalLength ((den - 1) / num) : Int)

/-- The neighbour of `m * 2 ^ q` on the grid of `n` digits that rounds back to it, if there is one;
of two the nearer, and the even one if it lies halfway between them. -/
def onGrid? (m : Nat) (q point : Int) (n : Nat) : Option Nat :=
  let grid := point - n
  let a := Text.powerOfTen grid.toNat <<< (2 - q).toNat
  let b := Text.powerOfTen (-grid).toNat <<< (q - 2).toNat
  let low := 4 * m - (if m = leadingBit ∧ q ≠ -1074 then 1 else 2)
  let high := 4 * m + 2
  let fits := fun c =>
    if m % 2 = 0 then b * low ≤ a * c ∧ a * c ≤ b * high else b * low < a * c ∧ a * c < b * high
  let below := b * (4 * m) / a
  let shortfall := b * (4 * m) - a * below
  let excess := a * (below + 1) - b * (4 * m)
  if fits below then
    if fits (below + 1) ∧ (excess < shortfall ∨ excess = shortfall ∧ below % 2 = 1) then
      some (below + 1)
    else some below
  else if fits (below + 1) then some (below + 1) else none

/-- The first precision from `n` on that has a decimal reading back, with that decimal. -/
def shortestFrom (m : Nat) (q point : Int) : Nat → Nat → Decimal
  | _, 0 => ⟨m, point⟩
  | n, more + 1 =>
    match onGrid? m q point n with
    | some c => ⟨c, point + decimalLength c - n⟩
    | none => shortestFrom m q point (n + 1) more

def shortest (x : Binary64) : Decimal :=
  let m := x.significand
  let q := x.exponent
  let point := decimalPoint (m <<< q.toNat) (1 <<< (-q).toNat)
  shortestFrom m q point 1 17

/-- How a decimal is laid out: positional between two powers of ten, else with an exponent of at
least two digits. -/
structure Layout where
  above : Int
  upTo : Int
  integerTail : List Char

/-- Positional from `0.0001` to below `10 ^ 16`, and an integer keeps a `.0`. -/
def Layout.plain : Layout := ⟨-4, 16, ['.', '0']⟩

def Layout.render (layout : Layout) (d : Decimal) : List Char :=
  let digits := ((Nat.toDigits 10 d.digits).reverse.dropWhile (· == '0')).reverse
  let count : Int := digits.length
  if layout.above < d.point ∧ d.point ≤ layout.upTo then
    if d.point ≤ 0 then '0' :: '.' :: (List.replicate (-d.point).toNat '0' ++ digits)
    else if count ≤ d.point then
      digits ++ List.replicate (d.point - count).toNat '0' ++ layout.integerTail
    else digits.take d.point.toNat ++ '.' :: digits.drop d.point.toNat
  else
    let exponent := d.point - 1
    let mantissa := match digits with
      | [] => ['0']
      | [one] => [one]
      | first :: rest => first :: '.' :: rest
    mantissa ++ 'e' :: (if exponent < 0 then '-' else '+') :: Text.decimalPad 2 exponent.natAbs

/-- The text of a number: `inf`, `-inf` and `nan` for the values that have no digits. -/
def text (x : Binary64) : String :=
  if x.isNaN then "nan"
  else
    let sign := if x.isNegative then ['-'] else []
    if x.isInfinite then String.ofList (sign ++ ['i', 'n', 'f'])
    else if x.isZero then String.ofList (sign ++ '0' :: Layout.plain.integerTail)
    else String.ofList (sign ++ Layout.plain.render x.shortest)

end KubeAtlas.Binary64
