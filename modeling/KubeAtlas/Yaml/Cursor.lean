/-!
# A position in a document

A cursor is the characters that are left, with the line and column they begin at, and the number of
characters of the whole text, so that it is known how many are left. Beyond the end every character
reads as NUL, which no document contains. A byte-order mark takes no column.
-/

namespace KubeAtlas.Yaml

structure Cursor where
  rest : List Char
  total : Nat
  /-- The number of characters before the cursor. -/
  index : Nat
  line : Nat
  column : Nat
deriving Repr

/-- A line break, other than the end of the text. -/
def isBreak (c : Char) : Bool :=
  c == '\n' || c == '\r' || c == '\x85' || c == '\u2028' || c == '\u2029'

def isBreakOrEnd (c : Char) : Bool := c == '\x00' || isBreak c

/-- What ends a word where tabs belong to it. -/
def isSpaceOrEnd (c : Char) : Bool := c == ' ' || isBreakOrEnd c

def isBlankOrEnd (c : Char) : Bool := c == '\t' || isSpaceOrEnd c

/-- A character of an anchor, of a directive's name or of a tag handle. -/
def isNameChar (c : Char) : Bool :=
  c.isDigit || ('a' ≤ c && c ≤ 'z') || ('A' ≤ c && c ≤ 'Z') || c == '-' || c == '_'

namespace Cursor

def start (s : List Char) : Cursor := ⟨s, s.length, 0, 0, 0⟩

def left (c : Cursor) : Nat := c.total - c.index

def ahead (c : Cursor) (k : Nat) : Char := c.rest.getD k '\x00'

def char (c : Cursor) : Char := c.ahead 0

/-- Moves over one character. A return before a line feed does not end the line by itself. -/
def next (c : Cursor) : Cursor :=
  match c.rest with
  | [] => c
  | ch :: rest =>
    if ch == '\n' || ch == '\x85' || ch == '\u2028' || ch == '\u2029' ||
        (ch == '\r' && rest.head? != some '\n') then
      ⟨rest, c.total, c.index + 1, c.line + 1, 0⟩
    else if ch == '\uFEFF' then ⟨rest, c.total, c.index + 1, c.line, c.column⟩
    else ⟨rest, c.total, c.index + 1, c.line, c.column + 1⟩

def skip (c : Cursor) : Nat → Cursor
  | 0 => c
  | n + 1 => c.next.skip n

def span (c : Cursor) (p : Char → Bool) : List Char × Cursor :=
  let taken := c.rest.takeWhile p
  (taken, c.skip taken.length)

def skipWhile (c : Cursor) (p : Char → Bool) : Cursor := (c.span p).2

def skipSpaces (c : Cursor) : Cursor := c.skipWhile (· == ' ')

/-- A line break, if there is one: a line feed stands for all of them but the separators of lines
and of paragraphs, which stand for themselves. -/
def lineBreak? (c : Cursor) : Option (Char × Cursor) :=
  match c.rest with
  | '\r' :: '\n' :: _ => some ('\n', c.skip 2)
  | ch :: _ =>
    if ch == '\r' || ch == '\n' || ch == '\x85' then some ('\n', c.next)
    else if ch == '\u2028' || ch == '\u2029' then some (ch, c.next)
    else none
  | [] => none

def atMarker (c : Cursor) (mark : Char) : Bool :=
  c.rest.take 3 == [mark, mark, mark] && isBlankOrEnd (c.ahead 3)

def atSeparator (c : Cursor) : Bool := c.atMarker '-' || c.atMarker '.'

end Cursor
end KubeAtlas.Yaml
