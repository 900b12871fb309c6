import KubeAtlas.Text.Digit
import KubeAtlas.Yaml.Cursor
import KubeAtlas.Yaml.Error
/-!
# Quoted scalars

In single quotes only the quote itself is special and is written twice. Double quotes have escapes
after a backslash. In both, a line break with the blanks around it is a space, and every further
empty line is a line feed. Characters are collected in reverse.

Text has no lone surrogates: an escape for one becomes `U+FFFD`. A host whose text can hold it keeps
it, and fails when it is to be encoded.

Every round of the two loops takes at least one character, so the characters that are left bound
the number of rounds.
-/

namespace KubeAtlas.Yaml.Quoted

/-- A piece of text in reverse, and the place after it. -/
abbrev Piece := List Char × Cursor

def malformed {α : Type} (e : Error) : Except Failure α := throw (.malformed e)

def letterEscape? : Char → Option Char
  | '0' => some '\x00'
  | 'a' => some '\x07'
  | 'b' => some '\x08'
  | 't' => some '\t'
  | '\t' => some '\t'
  | 'n' => some '\n'
  | 'v' => some '\x0b'
  | 'f' => some '\x0c'
  | 'r' => some '\r'
  | 'e' => some '\x1b'
  | ' ' => some ' '
  | '\x22' => some '\x22'
  | '\\' => some '\\'
  | '/' => some '/'
  | 'N' => some '\x85'
  | '_' => some '\xa0'
  | 'L' => some '\u2028'
  | 'P' => some '\u2029'
  | _ => none

def codeLength? : Char → Option Nat
  | 'x' => some 2
  | 'u' => some 4
  | 'U' => some 8
  | _ => none

/-- The character of a code point; a surrogate is no character and becomes `U+FFFD`. -/
def codeChar (n : Nat) : Except Failure Char :=
  if 0x110000 ≤ n then throw (.fault .codePoint)
  else if 0xD800 ≤ n ∧ n < 0xE000 then pure '\uFFFD'
  else pure (Char.ofNat n)

def breaks : Nat → List Char → Cursor → Except Failure Piece
  | 0, read, c => pure (read, c)
  | fuel + 1, read, c =>
    if c.atSeparator then malformed .separatorInScalar
    else
      let c := c.skipWhile fun ch => ch == ' ' || ch == '\t'
      match c.lineBreak? with
      | some (ch, c) => breaks fuel (ch :: read) c
      | none => pure (read, c)

/-- Blanks inside the quotes: themselves, or the line break among them. -/
def blanks (read : List Char) (c : Cursor) : Except Failure Piece :=
  let (taken, c) := c.span fun ch => ch == ' ' || ch == '\t'
  match c.lineBreak? with
  | some (ch, after) => do
    let (lines, after) ← breaks (after.left + 1) [] after
    let fold := if ch != '\n' then [ch] else if lines.isEmpty then [' '] else []
    pure (lines ++ fold ++ read, after)
  | none =>
    if c.char == '\x00' then malformed .unfinishedScalar
    else pure (taken.reverse ++ read, c)

def escape (read : List Char) (c : Cursor) : Except Failure Piece :=
  match letterEscape? c.char with
  | some ch => pure (ch :: read, c.next)
  | none =>
    match codeLength? c.char with
    | some size =>
      let c := c.next
      let digits := c.rest.take size
      if digits.length = size ∧ digits.all Text.isHexDigit then do
        let ch ← codeChar (Text.ofDigits 16 (digits.filterMap Text.hexDigit?))
        pure (ch :: read, c.skip size)
      else malformed .escape
    | none =>
      match c.lineBreak? with
      | some (_, c) => breaks (c.left + 1) read c
      | none => malformed .escape

def isOrdinary (ch : Char) : Bool :=
  !(ch == '\x27' || ch == '\x22' || ch == '\\' || isBlankOrEnd ch)

def words (double : Bool) : Nat → List Char → Cursor → Except Failure Piece
  | 0, read, c => pure (read, c)
  | fuel + 1, read, c =>
    let (taken, c) := c.span isOrdinary
    let read := taken.reverse ++ read
    let ch := c.char
    if !double && ch == '\x27' && c.ahead 1 == '\x27' then
      words double fuel ('\x27' :: read) (c.skip 2)
    else if (double && ch == '\x27') || (!double && (ch == '\x22' || ch == '\\')) then
      words double fuel (ch :: read) c.next
    else if double && ch == '\\' then do
      let (read, c) ← escape read c.next
      words double fuel read c
    else pure (read, c)

def body (double : Bool) : Nat → List Char → Cursor → Except Failure Piece
  | 0, read, c => pure (read, c)
  | fuel + 1, read, c =>
    if c.char == (if double then '\x22' else '\x27') then pure (read, c.next)
    else do
      let (read, c) ← blanks read c
      let (read, c) ← words double (c.left + 1) read c
      body double fuel read c

def scan (double : Bool) (c : Cursor) : Except Failure (String × Cursor) := do
  let c := c.next
  let (read, c) ← words double (c.left + 1) [] c
  let (read, c) ← body double (c.left + 1) read c
  pure (String.ofList read.reverse, c)

end KubeAtlas.Yaml.Quoted
