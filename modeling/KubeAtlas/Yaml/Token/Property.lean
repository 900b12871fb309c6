import KubeAtlas.Number.Reading
import KubeAtlas.Text.Utf8
import KubeAtlas.Yaml.Token
import KubeAtlas.Yaml.Token.Block
/-!
# Anchors, tags and directives

What stands in front of a node or of a document: a name for later references, a tag in a short form
or written out, and the lines that begin with a percent sign.
-/

namespace KubeAtlas.Yaml.Property

open Quoted (malformed)

def anchorName (c : Cursor) : Except Failure (String × Cursor) :=
  let (name, c) := c.next.span isNameChar
  if name.isEmpty then malformed .anchorName
  else if isBlankOrEnd c.char || "?:,]\x7d%@`".toList.contains c.char then
    pure (String.ofList name, c)
  else malformed .anchorName

def isUriChar (ch : Char) : Bool :=
  ch.isDigit || ('a' ≤ ch && ch ≤ 'z') || ('A' ≤ ch && ch ≤ 'Z') ||
    "-;/?:@&=+$,_.!~*\x27()[]%".toList.contains ch

def uriEscapes : Nat → List UInt8 → Cursor → Except Failure (List UInt8 × Cursor)
  | 0, read, c => pure (read.reverse, c)
  | fuel + 1, read, c =>
    if c.char == '%' then
      match Text.hexDigit? (c.ahead 1), Text.hexDigit? (c.ahead 2) with
      | some high, some low =>
        uriEscapes fuel (UInt8.ofNat (high * 16 + low) :: read) (c.skip 3)
      | _, _ => malformed .tagName
    else pure (read.reverse, c)

def uri : Nat → List Char → Cursor → Except Failure (List Char × Cursor)
  | 0, read, c => pure (read, c)
  | fuel + 1, read, c =>
    let (taken, c) := c.span fun ch => isUriChar ch && ch != '%'
    let read := taken.reverse ++ read
    if c.char == '%' then do
      let (bytes, c) ← uriEscapes (c.left + 1) [] c
      match Text.Utf8.decode? bytes with
      | some chars => uri fuel (chars.reverse ++ read) c
      | none => malformed .tagName
    else pure (read, c)

def uriText (c : Cursor) : Except Failure (String × Cursor) := do
  if isUriChar c.char then
    let (read, c) ← uri (c.left + 1) [] c
    pure (String.ofList read.reverse, c)
  else malformed .tagName

/-- A handle: `!`, or a name between two of them. -/
def handle (c : Cursor) : Except Failure (String × Cursor) :=
  if c.char != '!' then malformed .tagName
  else
    let after := c.next
    if after.char == ' ' then pure ("!", after)
    else
      let (name, after) := after.span isNameChar
      if after.char == '!' then pure (String.ofList ('!' :: name ++ ['!']), after.next)
      else malformed .tagName

def hasHandle (s : List Char) : Bool := (s.takeWhile fun ch => !isSpaceOrEnd ch).contains '!'

def tag (c : Cursor) : Except Failure (Token × Cursor) := do
  let first := c.ahead 1
  let (token, c) ← (do
    if first == '<' then
      let (suffix, c) ← uriText (c.skip 2)
      if c.char == '>' then pure (Token.tag none suffix, c.next) else malformed .tagName
    else if isBlankOrEnd first then pure (Token.tag none "!", c.next)
    else if hasHandle c.next.rest then
      let (handle, c) ← handle c
      let (suffix, c) ← uriText c
      pure (Token.tag (some handle) suffix, c)
    else
      let (suffix, c) ← uriText c.next
      pure (Token.tag (some "!") suffix, c))
  if isSpaceOrEnd c.char then pure (token, c) else malformed .tagName

/-- A number of a version. It has no more digits than an integer may have. -/
def versionNumber (c : Cursor) : Except Failure (Nat × Cursor) :=
  let (digits, c) := c.span Char.isDigit
  if digits.isEmpty then malformed .directive
  else if Number.maxDigits < digits.length then throw (.fault .number)
  else pure (Text.ofDigits 10 (digits.filterMap Text.asciiDigit?), c)

def version (c : Cursor) : Except Failure (Directive × Cursor) := do
  let (major, c) ← versionNumber c.skipSpaces
  if c.char != '.' then malformed .directive
  else
    let (minor, c) ← versionNumber c.next
    if isSpaceOrEnd c.char then pure (.yaml major minor, c) else malformed .directive

def shortForm (c : Cursor) : Except Failure (Directive × Cursor) := do
  let (handle, c) ← handle c.skipSpaces
  if c.char != ' ' then malformed .directive
  else
    let (uri, c) ← uriText c.skipSpaces
    if isSpaceOrEnd c.char then pure (.tag handle uri, c) else malformed .directive

def directive (c : Cursor) : Except Failure (Token × Cursor) := do
  let (name, c) := c.next.span isNameChar
  if name.isEmpty || !isSpaceOrEnd c.char then malformed .directive
  else
    let (d, c) ← (do
      if name == "YAML".toList then version c
      else if name == "TAG".toList then shortForm c
      else pure (.other, c.skipWhile fun ch => !isBreak ch))
    let c ← Block.ignoredLine .directive c
    pure (.directive d, c)

end KubeAtlas.Yaml.Property
