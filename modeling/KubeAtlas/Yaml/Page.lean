import KubeAtlas.Text.Digit
import KubeAtlas.Yaml.Style
/-!
# Writing scalars on a page

A page is the text so far with what the next word depends on: the column, whether a blank or a line
end stands before it, and whether there is nothing on the line but indentation and marks. Lines are
folded where they pass column 80, at a single space between two words; in double quotes a backslash
makes up for blanks that folding would lose.
-/

namespace KubeAtlas.Yaml

/-- A text being written, in reverse. -/
structure Page where
  out : List Char
  column : Nat
  /-- Whether a word can follow without a space. -/
  spaced : Bool
  /-- Whether the line holds nothing but indentation and marks. -/
  fresh : Bool

namespace Page

def start : Page := ⟨[], 0, true, true⟩

def width : Nat := 80

def put (p : Page) (s : List Char) : Page :=
  { p with out := s.reverse ++ p.out, column := p.column + s.length }

def word (p : Page) (s : List Char) : Page :=
  { p.put (if p.spaced then s else ' ' :: s) with spaced := false, fresh := false }

/-- Writes a mark that leaves the line fresh if it was. -/
def mark (p : Page) (s : List Char) : Page := { p.word s with fresh := p.fresh }

def close (p : Page) (s : List Char) : Page := { p.put s with spaced := false, fresh := false }

def lineEnd (p : Page) (c : Char) : Page := ⟨c :: p.out, 0, true, true⟩

/-- Goes to a column, on a new line unless the line is fresh and has not come that far. -/
def indent (p : Page) (column : Nat) : Page :=
  let p := if !p.fresh || column < p.column || (p.column == column && !p.spaced) then p.lineEnd '\n'
    else p
  if p.column < column then
    { p.put (List.replicate (column - p.column) ' ') with spaced := true }
  else p

def wrap (p : Page) (column : Nat) : Page :=
  { p.indent column with spaced := false, fresh := false }

/-- A text in runs of spaces, of line ends, and of other characters. -/
def runs (s : List Char) : List (List Char) :=
  s.splitBy fun a b => (a == ' ') == (b == ' ') && Style.isLineEnd a == Style.isLineEnd b

def plainRuns (column : Nat) (split : Bool) (p : Page) : List (List Char) → Page
  | [] => p
  | run :: rest =>
    let p := if run == [' '] && width < p.column && split then p.wrap column else p.put run
    plainRuns column split p rest

def plain (p : Page) (column : Nat) (split : Bool) (s : List Char) : Page :=
  if s.isEmpty then p
  else
    let p := if p.spaced then p else p.put [' ']
    plainRuns column split { p with spaced := false, fresh := false } (runs s)

/-- The line ends of a run, and a further one where a single line end would be a space. -/
def lineEnds (p : Page) (column : Nat) (run : List Char) : Page :=
  let p := if run.head? == some '\n' then p.lineEnd '\n' else p
  (run.foldl lineEnd p).indent column

def singleRuns (column : Nat) (split : Bool) (first : Bool) (p : Page) : List (List Char) → Page
  | [] => p
  | run :: rest =>
    let p :=
      if run == [' '] && width < p.column && split && !first && !rest.isEmpty then p.indent column
      else if run.head?.any Style.isLineEnd then p.lineEnds column run
      else p.put (run.flatMap fun c => if c == '\x27' then [c, c] else [c])
    singleRuns column split false p rest

def single (p : Page) (column : Nat) (split : Bool) (s : List Char) : Page :=
  (singleRuns column split true (p.word ['\x27']) (runs s)).close ['\x27']

def escapeLetter? : Char → Option Char
  | '\x00' => some '0'
  | '\x07' => some 'a'
  | '\x08' => some 'b'
  | '\t' => some 't'
  | '\n' => some 'n'
  | '\x0b' => some 'v'
  | '\x0c' => some 'f'
  | '\r' => some 'r'
  | '\x1b' => some 'e'
  | '\x22' => some '\x22'
  | '\\' => some '\\'
  | '\x85' => some 'N'
  | '\xa0' => some '_'
  | '\u2028' => some 'L'
  | '\u2029' => some 'P'
  | _ => none

def codeDigits (size n : Nat) : List Char := (Text.hexPad size n).map Char.toUpper

def escape (c : Char) : List Char :=
  match escapeLetter? c with
  | some letter => ['\\', letter]
  | none =>
    let n := c.toNat
    if n < 0x100 then '\\' :: 'x' :: codeDigits 2 n
    else if n < 0x10000 then '\\' :: 'u' :: codeDigits 4 n
    else '\\' :: 'U' :: codeDigits 8 n

def isEscaped (c : Char) : Bool := c == '\x22' || c == '\\' || !(' ' ≤ c && c ≤ '~')

/-- Breaks a line inside double quotes; a blank that comes next is kept by another backslash. -/
def breakLine (p : Page) (column : Nat) (next : Option Char) : Page :=
  let p := (p.put ['\\']).wrap column
  if next == some ' ' then p.put ['\\'] else p

/-- The characters inside double quotes. A line can be broken after an escape and before a space.
`after` says that an escape stands directly before. -/
def doubleChars (column : Nat) (split : Bool) (first after : Bool) (p : Page) : List Char → Page
  | [] => p
  | c :: rest =>
    let inside := !first && !rest.isEmpty && split
    if isEscaped c then
      let p := p.put (escape c)
      let p := if inside && width < p.column - 1 then p.breakLine column rest.head? else p
      doubleChars column split false true p rest
    else
      let p := if inside && (c == ' ' || after) && width < p.column then p.breakLine column (some c)
        else p
      doubleChars column split false false (p.put [c]) rest

def double (p : Page) (column : Nat) (split : Bool) (s : List Char) : Page :=
  (doubleChars column split true true (p.word ['\x22']) s).close ['\x22']

def literalHints (s : List Char) : List Char :=
  let indent := if s.head?.any Style.isBlankOrBreak then ['2'] else []
  indent ++ match s.reverse with
    | [] => []
    | last :: before =>
      if !Style.isLineEnd last then ['-']
      else if before.head?.all Style.isLineEnd then ['+'] else []

def literalRuns (column : Nat) (p : Page) : List (List Char) → Page
  | [] => p
  | run :: rest =>
    let p :=
      if run.head?.any Style.isLineEnd then run.foldl lineEnd p
      else { p.indent column with out := run.reverse ++ (p.indent column).out }
    literalRuns column p rest

/-- A literal block. Its last line is ended whether the text ends it or not. -/
def literal (p : Page) (column : Nat) (s : List Char) : Page :=
  let p := (p.word ('|' :: literalHints s)).lineEnd '\n'
  let lines := s.splitBy fun a b => Style.isLineEnd a == Style.isLineEnd b
  let p := literalRuns column p lines
  if s.getLast?.all Style.isLineEnd then p else p.lineEnd '\n'

def scalar (p : Page) (style : Style) (column : Nat) (split : Bool) (s : List Char) : Page :=
  match style with
  | .plain => p.plain column split s
  | .single => p.single column split s
  | .double => p.double column split s
  | .literal => p.literal column s

end Page
end KubeAtlas.Yaml
