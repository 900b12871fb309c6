import KubeAtlas.Yaml.Token.Quoted
/-!
# Block scalars

A block scalar is the indented lines after its header. The header says whether lines are folded
into spaces, how far the lines are indented unless the first of them is to show it, and what becomes
of the line breaks at the end: all are kept, the first is, or none.
-/

namespace KubeAtlas.Yaml.Block

open Quoted (malformed)

inductive Chomping where
  | keep | clip | strip
deriving DecidableEq, Repr

def chomping? (ch : Char) : Option Chomping :=
  if ch == '+' then some .keep else if ch == '-' then some .strip else none

def increment (c : Cursor) : Except Failure (Option Nat × Cursor) :=
  match Text.asciiDigit? c.char with
  | none => pure (none, c)
  | some 0 => malformed .blockHeader
  | some n => pure (some n, c.next)

def indicators (c : Cursor) : Except Failure ((Chomping × Option Nat) × Cursor) := do
  let (signs, c) ← (do
    match chomping? c.char with
    | some chomping =>
      let (n, c) ← increment c.next
      pure ((chomping, n), c)
    | none =>
      let (n, c) ← increment c
      match n, chomping? c.char with
      | some _, some chomping => pure ((chomping, n), c.next)
      | _, _ => pure ((Chomping.clip, n), c))
  if isSpaceOrEnd c.char then pure (signs, c) else malformed .blockHeader

def ignoredLine (e : Error) (c : Cursor) : Except Failure Cursor :=
  let c := c.skipSpaces
  let c := if c.char == '#' then c.skipWhile fun ch => !isBreak ch else c
  if isBreakOrEnd c.char then pure ((c.lineBreak?.map (·.2)).getD c) else malformed e

/-- Blank lines before the first line, their breaks, and the deepest indentation seen. -/
def leadingLines : Nat → List Char → Nat → Cursor → List Char × Nat × Cursor
  | 0, read, deepest, c => (read, deepest, c)
  | fuel + 1, read, deepest, c =>
    match c.lineBreak? with
    | some (ch, c) => leadingLines fuel (ch :: read) deepest c
    | none =>
      if c.char == ' ' then leadingLines fuel read (max deepest c.next.column) c.next
      else (read, deepest, c)

def indentTo (column : Nat) : Nat → Cursor → Cursor
  | 0, c => c
  | fuel + 1, c =>
    if c.column < column && c.char == ' ' then indentTo column fuel c.next else c

/-- Empty lines between the lines of a block, their breaks in reverse, and the next line. -/
def emptyLines (indent : Nat) : Nat → List Char → Cursor → List Char × Cursor
  | 0, read, c => (read, c)
  | fuel + 1, read, c =>
    let c := indentTo indent indent c
    match c.lineBreak? with
    | some (ch, c) => emptyLines indent fuel (ch :: read) c
    | none => (read, c)

def atLine (indent : Nat) (c : Cursor) : Bool := c.column == indent && c.char != '\x00'

/-- The lines of a block: their text in reverse, the break after the last, and those of the empty
lines at the end. -/
def lines (folded : Bool) (indent : Nat) :
    Nat → List Char → List Char → Cursor → (List Char × List Char × List Char) × Cursor
  | 0, read, empties, c => ((read, [], empties), c)
  | fuel + 1, read, empties, c =>
    let read := empties ++ read
    let indented := c.char == ' ' || c.char == '\t'
    let (line, c) := c.span fun ch => !isBreak ch
    let read := line.reverse ++ read
    let (lineEnd, c) := match c.lineBreak? with
      | some (ch, c) => ([ch], c)
      | none => ([], c)
    let (empties, c) := emptyLines indent (c.left + 1) [] c
    if atLine indent c then
      if folded && lineEnd == ['\n'] && !indented && c.char != ' ' && c.char != '\t' then
        lines folded indent fuel (if empties.isEmpty then ' ' :: read else read) empties c
      else lines folded indent fuel (lineEnd ++ read) empties c
    else ((read, lineEnd, empties), c)

def scan (folded : Bool) (parent : Int) (c : Cursor) : Except Failure (String × Cursor) := do
  let ((chomping, step), c) ← indicators c.next
  let c ← ignoredLine .blockHeader c
  let least := max 1 (parent + 1).toNat
  let (indent, empties, c) := match step with
    | none =>
      let (read, deepest, c) := leadingLines (c.left + 1) [] 0 c
      (max least deepest, read, c)
    | some n =>
      let indent := least + n - 1
      let (read, c) := emptyLines indent (c.left + 1) [] c
      (indent, read, c)
  let ((read, lineEnd, empties), c) :=
    if atLine indent c then lines folded indent (c.left + 1) [] empties c
    else (([], [], empties), c)
  let read := match chomping with
    | .keep => empties ++ lineEnd ++ read
    | .clip => lineEnd ++ read
    | .strip => read
  pure (String.ofList read.reverse, c)

end KubeAtlas.Yaml.Block
