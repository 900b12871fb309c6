import KubeAtlas.Yaml.Cursor
/-!
# How a scalar may be written

A text can be written without quotes if nothing in it could be taken for something else, in single
quotes if it is printable ASCII and the folding of lines would not touch its blanks, and in double
quotes always.
-/

namespace KubeAtlas.Yaml

inductive Style where
  | plain | single | double | literal
deriving DecidableEq, Repr

namespace Style

/-- A line break inside a text; a return is not one. -/
def isLineEnd (c : Char) : Bool := c == '\n' || c == '\x85' || c == '\u2028' || c == '\u2029'

def isMultiline (s : List Char) : Bool := s.any isLineEnd

/-- Whether a character can only be written by an escape. -/
def needsEscape (c : Char) : Bool := !(c == '\n' || (' ' ≤ c && c ≤ '~'))

def anyPair (p : Char → Char → Bool) (s : List Char) : Bool :=
  (s.zip s.tail).any fun (a, b) => p a b

/-- Whether a line begins with a blank, other than the first. -/
def hasIndentedLine (s : List Char) : Bool := anyPair (fun a b => isLineEnd a && b == ' ') s

/-- Whether a line ends with a blank, other than the last. -/
def hasTrailingBlank (s : List Char) : Bool := anyPair (fun a b => a == ' ' && isLineEnd b) s

def isBlankOrBreak (c : Char) : Bool := c == ' ' || isLineEnd c

/-- Whether the first character, given the one after it, would begin something else. -/
def beginsOther (c after : Char) : Bool :=
  "#,[]\x7b\x7d&*!|>\x27\x22%@`".toList.contains c ||
    ((c == '?' || c == ':' || c == '-') && isBlankOrEnd after)

/-- Whether a key's colon or a comment would be seen after the first character. -/
def endsInside : List Char → Bool
  | a :: b :: rest =>
    (b == ':' && isBlankOrEnd (rest.headD '\x00')) || (b == '#' && isBlankOrEnd a) ||
      endsInside (b :: rest)
  | _ => false

/-- Whether a text can stand without quotes in a block. -/
def allowsPlain (s : List Char) : Bool :=
  match s with
  | [] => true
  | c :: rest =>
    !(isBlankOrBreak c || s.getLast?.any isBlankOrBreak || isMultiline s ||
      s.any needsEscape || "---".toList.isPrefixOf s || "...".toList.isPrefixOf s ||
      beginsOther c (rest.headD '\x00') || endsInside s)

def allowsSingle (s : List Char) : Bool :=
  !(hasIndentedLine s || hasTrailingBlank s || s.any needsEscape)

def allowsLiteral (s : List Char) : Bool :=
  !(s.isEmpty || s.getLast? == some ' ' || hasTrailingBlank s || s.any needsEscape)

/-- The form of a scalar: `block` asks for a literal block, `byForm` says that without quotes the
text is taken for what it is, and a simple key has one line. -/
def choose (block byForm simpleKey : Bool) (s : List Char) : Style :=
  if !block && byForm && !(simpleKey && (s.isEmpty || isMultiline s)) && allowsPlain s then plain
  else if block && !simpleKey && allowsLiteral s then literal
  else if !block && allowsSingle s && !(simpleKey && isMultiline s) then single
  else double

end Style
end KubeAtlas.Yaml
