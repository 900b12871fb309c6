/-!
# UTF-8

Reading a byte string as text, one character at a time. `next` is the only place that knows the
encoding: a character and the bytes after it, or the length of the ill-formed piece in front. The
strict reading refuses the first ill-formed piece and the lenient one puts `U+FFFD` in its place; a
piece is the longest beginning of a character, so a truncated character is replaced once.
-/

namespace KubeAtlas.Text.Utf8

inductive Front where
  /-- A character, and the number of bytes it takes. -/
  | char (c : Char) (size : Nat)
  | bad (size : Nat)
deriving Repr

def isContinuation (b : UInt8) : Bool := 0x80 ≤ b && b ≤ 0xBF

def tail (b : UInt8) : Nat := b.toNat % 64

/-- Whether `b` may follow the lead byte `lead`: the ranges that rule out overlong forms,
surrogates and code points above `U+10FFFF`. -/
def mayFollow (lead b : UInt8) : Bool :=
  isContinuation b && !(lead == 0xE0 && b < 0xA0) && !(lead == 0xED && 0xA0 ≤ b) &&
    !(lead == 0xF0 && b < 0x90) && !(lead == 0xF4 && 0x90 ≤ b)

def next (lead : UInt8) (rest : List UInt8) : Front :=
  if lead < 0x80 then .char (Char.ofNat lead.toNat) 1
  else if lead < 0xC2 then .bad 1
  else if lead < 0xE0 then
    match rest with
    | b :: _ =>
      if isContinuation b then .char (Char.ofNat ((lead.toNat % 32) * 64 + tail b)) 2 else .bad 1
    | [] => .bad 1
  else if lead < 0xF0 then
    match rest with
    | b :: c :: _ =>
      if !mayFollow lead b then .bad 1
      else if !isContinuation c then .bad 2
      else .char (Char.ofNat ((lead.toNat % 16) * 4096 + tail b * 64 + tail c)) 3
    | [b] => if mayFollow lead b then .bad 2 else .bad 1
    | [] => .bad 1
  else if lead < 0xF5 then
    match rest with
    | b :: c :: d :: _ =>
      if !mayFollow lead b then .bad 1
      else if !isContinuation c then .bad 2
      else if !isContinuation d then .bad 3
      else .char (Char.ofNat ((lead.toNat % 8) * 262144 + tail b * 4096 + tail c * 64 + tail d)) 4
    | [b, c] => if !mayFollow lead b then .bad 1 else if isContinuation c then .bad 3 else .bad 2
    | [b] => if mayFollow lead b then .bad 2 else .bad 1
    | [] => .bad 1
  else .bad 1

def decode? : List UInt8 → Option (List Char)
  | [] => some []
  | lead :: rest =>
    match next lead rest with
    | .char c size => (decode? (rest.drop (size - 1))).map (c :: ·)
    | .bad _ => none
termination_by bytes => bytes.length
decreasing_by
  simp only [List.length_drop, List.length_cons]
  omega

/-- The text of a byte string, with `U+FFFD` for each ill-formed piece. -/
def decodeLossy : List UInt8 → List Char
  | [] => []
  | lead :: rest =>
    match next lead rest with
    | .char c size => c :: decodeLossy (rest.drop (size - 1))
    | .bad size => '\uFFFD' :: decodeLossy (rest.drop (size - 1))
termination_by bytes => bytes.length
decreasing_by
  all_goals
    simp only [List.length_drop, List.length_cons]
    omega

def encodeChar (c : Char) : List UInt8 :=
  let n := c.toNat
  if n < 0x80 then [n.toUInt8]
  else if n < 0x800 then [(0xC0 + n / 64).toUInt8, (0x80 + n % 64).toUInt8]
  else if n < 0x10000 then
    [(0xE0 + n / 4096).toUInt8, (0x80 + n / 64 % 64).toUInt8, (0x80 + n % 64).toUInt8]
  else
    [(0xF0 + n / 262144).toUInt8, (0x80 + n / 4096 % 64).toUInt8, (0x80 + n / 64 % 64).toUInt8,
      (0x80 + n % 64).toUInt8]

def encode (s : List Char) : List UInt8 := s.flatMap encodeChar

end KubeAtlas.Text.Utf8
