/-!
# Blank characters

Two sets of separators are in use, and they differ on more than the alphabet. Text is split and
stripped at every character Unicode calls white space, together with the four information
separators `U+001C` to `U+001F`; a byte string is split at the six ASCII blanks only.
-/

namespace KubeAtlas.Text

/-- White space in text: the Unicode set and the four information separators. -/
def isBlank (c : Char) : Bool :=
  let n := c.toNat
  (9 ≤ n && n ≤ 13) || (28 ≤ n && n ≤ 32) || n == 0x85 || n == 0xA0 || n == 0x1680 ||
    (0x2000 ≤ n && n ≤ 0x200A) || n == 0x2028 || n == 0x2029 || n == 0x202F || n == 0x205F ||
    n == 0x3000

/-- White space in a byte string: space, tab, line feed, vertical tab, form feed, return. -/
def isByteBlank (b : UInt8) : Bool := b == 32 || (9 ≤ b && b ≤ 13)

def isAsciiBlank (c : Char) : Bool := c == ' ' || (9 ≤ c.toNat && c.toNat ≤ 13)

def stripBy (blank : Char → Bool) (s : List Char) : List Char :=
  ((s.dropWhile blank).reverse.dropWhile blank).reverse

/-- The text without any blank, which is what joining its blank-separated words gives. -/
def squeeze (s : List Char) : List Char := s.filter (fun c => !isBlank c)

end KubeAtlas.Text
