import KubeAtlas.Yaml.Token.Plain
import KubeAtlas.Yaml.Token.Property
/-!
# The words of a document

`Token.read` divides the characters of a document into tokens. Three things are found on the way
that no single word shows. Block collections begin and end where the indentation changes. The key of
a mapping is recognised at the colon after it, so the places where a key may have begun are
remembered, one for each depth of flow collections, and the token of the key is put in front of it
afterwards. And whether a key may begin at all depends on what stands before it on the line.

A remembered key is given up at the end of its line or after 1024 characters. Where a block mapping
can only go on with a key, giving up is an error.

Reading stops at the first error. The tokens before it are kept, since a reader of tokens may find
an earlier error in them; it is given as many as are settled without looking at what is wrong.
-/

namespace KubeAtlas.Yaml

structure TokenRun where
  tokens : List Token
  error : Option Failure

/-- A place where a key may have begun. -/
structure PossibleKey where
  depth : Nat
  /-- The number of tokens before the key. -/
  number : Nat
  /-- Whether nothing but a key can stand here. -/
  required : Bool
  place : Cursor

/-- What is known after some tokens. Indentation `-1` is that of the document itself. -/
structure Layout where
  cursor : Cursor
  depth : Nat
  indent : Int
  outer : List Int
  keyAllowed : Bool
  keys : List PossibleKey
  /-- The tokens so far, the last first. -/
  tokens : List Token
  count : Nat

namespace Layout

open Quoted (malformed)

def start (s : List Char) : Layout :=
  ⟨Cursor.start s, 0, -1, [], true, [], [], 0⟩

def inFlow (l : Layout) : Bool := l.depth != 0

def column (l : Layout) : Int := l.cursor.column

def push (l : Layout) (t : Token) : Layout :=
  { l with tokens := t :: l.tokens, count := l.count + 1 }

/-- Puts a token behind the first `number` ones. -/
def insert (l : Layout) (number : Nat) (t : Token) : Layout :=
  { l with tokens := l.tokens.insertIdx (l.count - number) t, count := l.count + 1 }

def isStale (l : Layout) (k : PossibleKey) : Bool :=
  k.place.line != l.cursor.line || l.cursor.index > k.place.index + 1024

def dropStaleKeys (l : Layout) : Except Failure Layout :=
  if l.keys.any fun k => l.isStale k && k.required then malformed .keyWithoutValue
  else pure { l with keys := l.keys.filter fun k => !l.isStale k }

def dropKey (l : Layout) : Except Failure Layout :=
  if l.keys.any fun k => k.depth == l.depth && k.required then malformed .keyWithoutValue
  else pure { l with keys := l.keys.filter fun k => k.depth != l.depth }

def noteKey (l : Layout) : Except Failure Layout :=
  if l.keyAllowed then do
    let l ← l.dropKey
    let required := !l.inFlow && l.indent == l.column
    pure { l with keys := ⟨l.depth, l.count, required, l.cursor⟩ :: l.keys }
  else pure l

/-- Ends block collections that are indented deeper than a column. -/
def unwind (column : Int) : List Int → Layout → Layout
  | [], l => l
  | indent :: outer, l =>
    if !l.inFlow && column < l.indent then
      unwind column outer { l.push .blockEnd with indent := indent, outer := outer }
    else l

def unwindTo (l : Layout) (column : Int) : Layout := unwind column l.outer l

/-- Begins a block collection at a column, unless it is the one that is open already. The token of
the collection is put at the given place. -/
def openBlock (l : Layout) (column : Int) (number : Nat) (t : Token) : Layout :=
  if l.indent < column then
    { l.insert number t with indent := column, outer := l.indent :: l.outer }
  else l

def openHere (l : Layout) (t : Token) : Layout := l.openBlock l.column l.count t

def skipBlank : Nat → Layout → Layout
  | 0, l => l
  | fuel + 1, l =>
    let c := l.cursor.skipSpaces
    let c := if c.char == '#' then c.skipWhile fun ch => !isBreak ch else c
    match c.lineBreak? with
    | some (_, c) =>
      skipBlank fuel { l with cursor := c, keyAllowed := l.keyAllowed || !l.inFlow }
    | none => { l with cursor := c }

def skipMark (l : Layout) : Layout :=
  if l.cursor.index == 0 && l.cursor.char == '\uFEFF' then { l with cursor := l.cursor.next } else l

def take (l : Layout) (size : Nat) (t : Token) : Layout :=
  { l.push t with cursor := l.cursor.skip size }

def taken (l : Layout) (r : Token × Cursor) : Layout := { l.push r.1 with cursor := r.2 }

/-- What ends every block collection: a document marker, a directive or the end of the text. -/
def outermost (l : Layout) : Except Failure Layout := do
  let l ← (l.unwindTo (-1)).dropKey
  pure { l with keyAllowed := false }

def flowStart (l : Layout) (t : Token) : Except Failure Layout := do
  let l ← l.noteKey
  pure ({ l with depth := l.depth + 1, keyAllowed := true }.take 1 t)

def flowEnd (l : Layout) (t : Token) : Except Failure Layout := do
  let l ← l.dropKey
  pure ({ l with depth := l.depth - 1, keyAllowed := false }.take 1 t)

def flowEntry (l : Layout) : Except Failure Layout := do
  let l ← { l with keyAllowed := true }.dropKey
  pure (l.take 1 .flowEntry)

/-- The mark of an item or of a complex key: in a block it may begin a collection. -/
def blockMark (l : Layout) (e : Error) (collection t : Token) (keyAfter : Bool) :
    Except Failure Layout :=
  if !l.inFlow && !l.keyAllowed then malformed e
  else do
    let l := if l.inFlow then l else l.openHere collection
    let l ← { l with keyAllowed := keyAfter }.dropKey
    pure (l.take 1 t)

/-- The colon after a key. If a key may have begun, it did, and a block mapping with it. -/
def value (l : Layout) : Except Failure Layout :=
  match l.keys.find? fun k => k.depth == l.depth with
  | some k =>
    let keys := l.keys.filter fun k => k.depth != l.depth
    let l := { l.insert k.number .key with keys := keys, keyAllowed := false }
    let l := if l.inFlow then l else l.openBlock k.place.column k.number .blockMappingStart
    pure (l.take 1 .value)
  | none => l.blockMark .misplacedValue .blockMappingStart .value (!l.inFlow)

def word (l : Layout) (read : Cursor → Except Failure (Token × Cursor)) :
    Except Failure Layout := do
  let l ← l.noteKey
  let r ← read l.cursor
  pure ({ l with keyAllowed := false }.taken r)

def plain (l : Layout) : Except Failure Layout := do
  let l ← l.noteKey
  let r := Plain.scan l.inFlow l.indent l.cursor
  let text := String.ofList r.read.reverse
  pure ({ l with keyAllowed := r.broken }.taken (.scalar text true, r.after))

def block (l : Layout) (folded : Bool) : Except Failure Layout := do
  let l ← { l with keyAllowed := true }.dropKey
  let (text, c) ← Block.scan folded l.indent l.cursor
  pure (l.taken (.scalar text false, c))

/-- Whether a plain scalar can begin with a character, given the one after it. -/
def startsPlain (flow : Bool) (ch after : Char) : Bool :=
  !(isBlankOrEnd ch || "-?:,[]\x7b\x7d#&*!|>\x27\x22%@`".toList.contains ch) ||
    (!isBlankOrEnd after && (ch == '-' || (!flow && (ch == '?' || ch == ':'))))

/-- The token at the cursor, with the tokens of the collections it begins or ends. -/
def word? (l : Layout) : Except Failure Layout :=
  let c := l.cursor
  let ch := c.char
  let spaced := isBlankOrEnd (c.ahead 1)
  if ch == '%' && c.column == 0 then do
    let l ← l.outermost
    pure (l.taken (← Property.directive l.cursor))
  else if c.column == 0 && c.atMarker '-' then do pure ((← l.outermost).take 3 .documentStart)
  else if c.column == 0 && c.atMarker '.' then do pure ((← l.outermost).take 3 .documentEnd)
  else if ch == '[' then l.flowStart .flowSequenceStart
  else if ch == '\x7b' then l.flowStart .flowMappingStart
  else if ch == ']' then l.flowEnd .flowSequenceEnd
  else if ch == '\x7d' then l.flowEnd .flowMappingEnd
  else if ch == ',' then l.flowEntry
  else if ch == '-' && spaced then
    l.blockMark .misplacedEntry .blockSequenceStart .blockEntry true
  else if ch == '?' && (l.inFlow || spaced) then
    l.blockMark .misplacedKey .blockMappingStart .key (!l.inFlow)
  else if ch == ':' && (l.inFlow || spaced) then l.value
  else if ch == '*' then l.word fun c => do
    let (name, c) ← Property.anchorName c
    pure (.alias name, c)
  else if ch == '&' then l.word fun c => do
    let (name, c) ← Property.anchorName c
    pure (.anchor name, c)
  else if ch == '!' then l.word Property.tag
  else if ch == '|' && !l.inFlow then l.block false
  else if ch == '>' && !l.inFlow then l.block true
  else if ch == '\x27' || ch == '\x22' then l.word fun c => do
    let (text, c) ← Quoted.scan (ch == '\x22') c
    pure (.scalar text false, c)
  else if startsPlain l.inFlow ch (c.ahead 1) then l.plain
  else malformed .unknownToken

/-- The next token, or the end. `fuel` is more than the characters that are left. -/
def step (fuel : Nat) (l : Layout) : Except Failure (Layout ⊕ Layout) := do
  let l ← (skipBlank fuel l.skipMark).dropStaleKeys
  let l := l.unwindTo l.column
  if l.cursor.rest.isEmpty then do
    pure (.inr ((← l.outermost).push .streamEnd))
  else .inl <$> l.word?

/-- The tokens that are settled: those before the first that a key may yet be put in front of. -/
def settled (l : Layout) : List Token :=
  let numbers := (l.keys.filter fun k => !l.isStale k).map (·.number)
  l.tokens.reverse.take (numbers.foldl min l.count)

/-- Reads tokens to the end. Since a step takes a character, the fuel stays above the number of
characters that are left. -/
def run : Nat → Layout → TokenRun
  | 0, l => ⟨l.settled, some (.malformed .unknownToken)⟩
  | fuel + 1, l =>
    match l.step (fuel + 1) with
    | .ok (.inl next) => run fuel next
    | .ok (.inr done) => ⟨done.tokens.reverse, none⟩
    | .error e => ⟨l.settled, some e⟩

end Layout

def Token.read (s : List Char) : TokenRun := Layout.run (s.length + 2) (Layout.start s)

end KubeAtlas.Yaml
