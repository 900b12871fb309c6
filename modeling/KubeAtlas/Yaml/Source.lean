import KubeAtlas.Text.Utf8
import KubeAtlas.Yaml.Error
/-!
# The characters of a document

A document of bytes is UTF-8 unless it begins with a byte-order mark of UTF-16. Whatever the
encoding, only printable characters and the blanks and line breaks of YAML may occur.
-/

namespace KubeAtlas.Yaml

/-- The code units of sixteen bits, `none` if a byte is left over. -/
def codeUnits? (bigEndian : Bool) : List UInt8 → Option (List Nat)
  | [] => some []
  | [_] => none
  | a :: b :: rest =>
    let unit := if bigEndian then a.toNat * 256 + b.toNat else b.toNat * 256 + a.toNat
    (codeUnits? bigEndian rest).map (unit :: ·)

/-- The characters of code units, `none` if a surrogate stands alone. -/
def ofCodeUnits? : List Nat → Option (List Char)
  | [] => some []
  | u :: rest =>
    if 0xD800 ≤ u ∧ u < 0xDC00 then
      match rest with
      | l :: rest =>
        if 0xDC00 ≤ l ∧ l < 0xE000 then
          (ofCodeUnits? rest).map (Char.ofNat (0x10000 + (u - 0xD800) * 1024 + (l - 0xDC00)) :: ·)
        else none
      | [] => none
    else if 0xDC00 ≤ u ∧ u < 0xE000 then none
    else (ofCodeUnits? rest).map (Char.ofNat u :: ·)

/-- The characters of bytes, by the byte-order mark. -/
def decode? : List UInt8 → Option (List Char)
  | 0xFF :: 0xFE :: rest => (codeUnits? false (0xFF :: 0xFE :: rest)).bind ofCodeUnits?
  | 0xFE :: 0xFF :: rest => (codeUnits? true (0xFE :: 0xFF :: rest)).bind ofCodeUnits?
  | bytes => Text.Utf8.decode? bytes

def isAllowed (c : Char) : Bool :=
  let n := c.toNat
  n == 9 || n == 10 || n == 13 || (0x20 ≤ n && n ≤ 0x7E) || n == 0x85 || (0xA0 ≤ n && n ≤ 0xD7FF) ||
    (0xE000 ≤ n && n ≤ 0xFFFD) || 0x10000 ≤ n

def checkedText (s : List Char) : Except Error (List Char) :=
  match s.find? fun c => !isAllowed c with
  | some c => throw (.character c)
  | none => pure s

def checkedBytes (bytes : List UInt8) : Except Error (List Char) :=
  match decode? bytes with
  | some s => checkedText s
  | none => throw .encoding

end KubeAtlas.Yaml
