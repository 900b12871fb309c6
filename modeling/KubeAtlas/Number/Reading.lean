import KubeAtlas.Number.Binary64
import KubeAtlas.Number.Shortest
import KubeAtlas.Text.Blank
import KubeAtlas.Text.Digit
/-!
# Reading numbers

`Binary64.ofDecimal` is the number nearest to a decimal of any length. Two grammars lead to it: the
strict one of plain digits, point and exponent, and the lenient one for a number that a person
typed, which allows blanks at the ends, digits of any script, single underscores between digits and
the words `inf`, `infinity` and `nan`. Integers have a lenient grammar of their own, with a base and
its marker (`0b`, `0o`, `0x`).
-/

namespace KubeAtlas

namespace Binary64

/-- The number nearest to `digits * 10 ^ scale`. The bounds keep an absurd exponent from being
computed: beyond them the result is infinite or zero anyway. -/
def ofDecimal (negative : Bool) (digits : Nat) (scale : Int) : Binary64 :=
  let size : Int := decimalLength digits + scale
  if digits = 0 ∨ size < -400 then zero negative
  else if 400 < size then infinity negative
  else ofRatio negative (digits * Text.powerOfTen scale.toNat) (Text.powerOfTen (-scale).toNat)

end Binary64

namespace Number

def spanDigits (s : List Char) : List Nat × List Char :=
  ((s.takeWhile Char.isDigit).map fun c => c.toNat - 48, s.dropWhile Char.isDigit)

def spanSign : List Char → Bool × List Char
  | '-' :: rest => (true, rest)
  | '+' :: rest => (false, rest)
  | rest => (false, rest)

/-- The exponent part that ends a number: `none` if what is there is not one. -/
def exponentPart? : List Char → Option Int
  | [] => some 0
  | c :: rest =>
    if c == 'e' || c == 'E' then
      let (negative, body) := spanSign rest
      match spanDigits body with
      | ([], _) => none
      | (digits, []) =>
        let n : Int := Text.ofDigits 10 digits
        some (if negative then -n else n)
      | _ => none
    else none

def unsignedDecimal? (negative : Bool) (s : List Char) : Option Binary64 :=
  let (whole, rest) := spanDigits s
  let (fraction, rest) := match rest with
    | '.' :: rest => spanDigits rest
    | rest => ([], rest)
  if whole.isEmpty && fraction.isEmpty then none
  else
    (exponentPart? rest).map fun e =>
      Binary64.ofDecimal negative (Text.ofDigits 10 (whole ++ fraction)) (e - fraction.length)

/-- A number without blanks or underscores: a decimal or one of the words. -/
def decimal? (s : List Char) : Option Binary64 :=
  let (negative, body) := spanSign s
  let word := String.ofList (body.map Char.toLower)
  if word == "inf" || word == "infinity" then some (Binary64.infinity negative)
  else if word == "nan" then
    some (if negative then Binary64.nan.negate else Binary64.nan)
  else unsignedDecimal? negative body

/-- The text without its underscores, `none` if one does not stand between two digits. -/
def dropUnderscores? (s : List Char) : Option (List Char) :=
  go none s
where
  go : Option Char → List Char → Option (List Char)
    | previous, [] => if previous == some '_' then none else some []
    | previous, c :: rest =>
      let afterDigit := previous.any Char.isDigit
      if c == '_' then if afterDigit then go (some c) rest else none
      else if previous == some '_' && !c.isDigit then none
      else (go (some c) rest).map (c :: ·)

/-- A character of a number in any script, brought to ASCII. The result is `?` where no number can
continue. -/
def asciiForm (c : Char) : Char :=
  if c.toNat < 127 then c
  else if Text.isBlank c then ' '
  else match Text.digitValue? c with
    | some d => Char.ofNat (48 + d)
    | none => '?'

/-- A number as a person types it. -/
def lenient? (s : List Char) : Option Binary64 :=
  (dropUnderscores? (Text.stripBy Text.isAsciiBlank (s.map asciiForm))).bind decimal?

def baseDigit? (base : Nat) (c : Char) : Option Nat := (Text.hexDigit? c).filter (· < base)

def baseMarker (base : Nat) : Option Char :=
  if base = 2 then some 'b' else if base = 8 then some 'o' else if base = 16 then some 'x' else none

/-- An integer in the given base, in digits of any script: blanks at the ends, a sign and the base's
marker are allowed. -/
def lenientInt? (base : Nat) (s : List Char) : Option Int :=
  let (negative, body) := spanSign (Text.stripBy Text.isAsciiBlank (s.map asciiForm))
  let body := match body with
    | '0' :: c :: rest => if some c.toLower == baseMarker base then rest else body
    | _ => body
  if body.isEmpty then none
  else
    (body.mapM (baseDigit? base)).map fun digits =>
      let n : Int := Text.ofDigits base digits
      if negative then -n else n

/-- The most decimal digits that an integer is read from or written in. -/
def maxDigits : Nat := 4300

def isWritable (n : Int) : Bool := n.natAbs < Text.powerOfTen maxDigits

end Number
end KubeAtlas
