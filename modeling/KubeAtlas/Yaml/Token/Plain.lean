import KubeAtlas.Yaml.Cursor
/-!
# Plain scalars

A plain scalar has no quotes: it ends where something else could begin. It may go on over several
lines when the next one is indented deeper than its collection; a line break is then a space, and
every empty line a line feed.
-/

namespace KubeAtlas.Yaml.Plain

def isFlowMark (ch : Char) : Bool :=
  ch == ',' || ch == '[' || ch == ']' || ch == '\x7b' || ch == '\x7d'

/-- Whether the plain scalar ends before the character, given the one after it. -/
def endsAt (flow : Bool) (ch after : Char) : Bool :=
  isBlankOrEnd ch || (ch == ':' && (isBlankOrEnd after || (flow && isFlowMark after))) ||
    (flow && (ch == '?' || isFlowMark ch))

def wordLength (flow : Bool) : List Char → Nat
  | [] => 0
  | ch :: rest => if endsAt flow ch (rest.headD '\x00') then 0 else wordLength flow rest + 1

/-- What separates two words: the text between them, `none` if the scalar ends at a document
marker, and whether a line was ended. -/
structure Gap where
  text : Option (List Char)
  broken : Bool
  after : Cursor

def emptyLines : Nat → List Char → Cursor → Option (List Char) × Cursor
  | 0, read, c => (some read, c)
  | fuel + 1, read, c =>
    match c.lineBreak? with
    | some (ch, c) => if c.atSeparator then (none, c) else emptyLines fuel (ch :: read) c
    | none => if c.char == ' ' then emptyLines fuel read c.next else (some read, c)

def gap (c : Cursor) : Gap :=
  let (spaces, c) := c.span (· == ' ')
  match c.lineBreak? with
  | none => ⟨some spaces, false, c⟩
  | some (ch, c) =>
    if c.atSeparator then ⟨none, true, c⟩
    else
      let (empties, c) := emptyLines (c.left + 1) [] c
      ⟨empties.map fun e => e ++ (if ch != '\n' then [ch] else if e.isEmpty then [' '] else []),
        true, c⟩

/-- A plain scalar read so far: its text in reverse, whether a line was ended after the last word,
and the place. -/
structure Reading where
  read : List Char
  broken : Bool
  after : Cursor

/-- Words with the gaps between them. The gap before a word is only written with the word. -/
def words (flow : Bool) (indent : Int) : Nat → List Char → Reading → Reading
  | 0, _, r => r
  | fuel + 1, before, r =>
    let c := r.after
    let size := if c.char == '#' then 0 else wordLength flow c.rest
    if size = 0 then r
    else
      let read := (c.rest.take size).reverse ++ before ++ r.read
      let g := gap (c.skip size)
      let r := ⟨read, g.broken, g.after⟩
      match g.text with
      | none => r
      | some text =>
        if text.isEmpty || g.after.char == '#' || (!flow && (g.after.column : Int) < indent) then r
        else words flow indent fuel text r

def scan (flow : Bool) (parent : Int) (c : Cursor) : Reading :=
  words flow (parent + 1) (c.left + 1) [] ⟨[], false, c⟩

end KubeAtlas.Yaml.Plain
