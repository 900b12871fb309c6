/-!
# Base64

Three bytes are four characters of an alphabet of sixty-four; two bytes are three characters and a
pad, one byte is two characters and two pads.

There are two readings. The strict one allows nothing outside the alphabet and pads only at the end;
pads after a complete group are harmless. The lenient one skips whatever is not in the alphabet.
Both end at the pad that completes a group and refuse a group that is not completed.
-/

namespace KubeAtlas.Text.Base64

def sextetChar (n : Nat) : Char :=
  if n < 26 then Char.ofNat (65 + n)
  else if n < 52 then Char.ofNat (97 + n - 26)
  else if n < 62 then Char.ofNat (48 + n - 52)
  else if n = 62 then '+' else '/'

def sextet? (c : Char) : Option Nat :=
  if 'A' ≤ c ∧ c ≤ 'Z' then some (c.toNat - 65)
  else if 'a' ≤ c ∧ c ≤ 'z' then some (c.toNat - 97 + 26)
  else if '0' ≤ c ∧ c ≤ '9' then some (c.toNat - 48 + 52)
  else if c = '+' then some 62
  else if c = '/' then some 63
  else none

def encode : List UInt8 → List Char
  | [] => []
  | [a] =>
    let n := a.toNat * 16
    [sextetChar (n / 64), sextetChar (n % 64), '=', '=']
  | [a, b] =>
    let n := (a.toNat * 256 + b.toNat) * 4
    [sextetChar (n / 4096), sextetChar (n / 64 % 64), sextetChar (n % 64), '=']
  | a :: b :: c :: rest =>
    let n := (a.toNat * 256 + b.toNat) * 256 + c.toNat
    sextetChar (n / 262144) :: sextetChar (n / 4096 % 64) :: sextetChar (n / 64 % 64) ::
      sextetChar (n % 64) :: encode rest

inductive Error where
  | notAscii
  | leadingPad
  | foreignCharacter
  | dataAfterPad
  | padInside
  /-- One character more than complete groups; the number of characters that were data. -/
  | loneCharacter (count : Nat)
  | padding
deriving DecidableEq, Repr

def Error.message : Error → String
  | notAscii => "string argument should contain only ASCII characters"
  | leadingPad => "Leading padding not allowed"
  | foreignCharacter => "Only base64 data is allowed"
  | dataAfterPad => "Excess data after padding"
  | padInside => "Discontinuous padding not allowed"
  | loneCharacter n => s!"Invalid base64-encoded string: number of data characters ({n}) " ++
      "cannot be 1 more than a multiple of 4"
  | padding => "Incorrect padding"

/-- A reading in progress: the group's characters so far as values, the pads directly in front,
whether there was any pad, and the bytes in reverse. -/
structure Reading where
  group : List Nat
  pads : Nat
  padded : Bool
  bytes : List UInt8

namespace Reading

def start : Reading := ⟨[], 0, false, []⟩

/-- Adds a character of the alphabet. Each but the first of a group completes a byte. -/
def add (r : Reading) (n : Nat) : Reading :=
  match r.group with
  | [] => ⟨[n], 0, r.padded, r.bytes⟩
  | [a] => ⟨[a, n], 0, r.padded, UInt8.ofNat (a * 4 + n / 16) :: r.bytes⟩
  | [a, b] => ⟨[a, b, n], 0, r.padded, UInt8.ofNat (b * 16 + n / 4) :: r.bytes⟩
  | _ :: _ :: c :: _ => ⟨[], 0, r.padded, UInt8.ofNat (c * 64 + n) :: r.bytes⟩

def finish (r : Reading) : Except Error (List UInt8) :=
  match r.group with
  | [] => pure r.bytes.reverse
  | [_] => throw (.loneCharacter (r.bytes.length / 3 * 4 + 1))
  | _ => throw .padding

end Reading

def read (strict : Bool) (r : Reading) : List Char → Except Error (List UInt8)
  | [] => r.finish
  | '=' :: rest =>
    let completes := 2 ≤ r.group.length && 4 ≤ r.group.length + (r.pads + 1)
    if completes then
      if strict && !rest.isEmpty then throw .dataAfterPad else pure r.bytes.reverse
    else
      let pads := if 2 ≤ r.group.length then r.pads + 1 else r.pads
      read strict { r with padded := true, pads := pads } rest
  | c :: rest =>
    match sextet? c with
    | none => if strict then throw .foreignCharacter else read strict r rest
    | some n => if strict && r.padded then throw .padInside else read strict (r.add n) rest

def decode (s : List Char) : Except Error (List UInt8) :=
  if s.any fun c => 128 ≤ c.toNat then throw .notAscii
  else if s.head? = some '=' then throw .leadingPad
  else read true .start s

/-- The bytes of a text whose other characters are ignored. -/
def decodeLenient (s : List Char) : Except Error (List UInt8) :=
  if s.any fun c => 128 ≤ c.toNat then throw .notAscii else read false .start s

end KubeAtlas.Text.Base64
