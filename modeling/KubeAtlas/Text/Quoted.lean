import KubeAtlas.Text.Digit
import KubeAtlas.Text.Printable
/-!
# Quoted text

Messages show a name or a path in quotes, so that blanks and control characters in it are visible.
The quote is the apostrophe, unless the text holds an apostrophe and no double quote. Inside, the
quote in use and the backslash are escaped, tab, line feed and return have short escapes, and a
character that is not printable is written by its code point. A byte string is shown the same way
behind a `b`, with every byte outside printable ASCII written in hexadecimal.
-/

namespace KubeAtlas.Text

def quoteFor (s : List Char) : Char :=
  if s.contains '\x27' && !s.contains '\x22' then '\x22' else '\x27'

/-- The escape of a code point: two, four or eight hexadecimal digits. -/
def escapeCode (n : Nat) : List Char :=
  if n < 0x100 then '\\' :: 'x' :: hexPad 2 n
  else if n < 0x10000 then '\\' :: 'u' :: hexPad 4 n
  else '\\' :: 'U' :: hexPad 8 n

def quoteChar (quote c : Char) : List Char :=
  if c == quote || c == '\\' then ['\\', c]
  else if c == '\t' then ['\\', 't']
  else if c == '\n' then ['\\', 'n']
  else if c == '\r' then ['\\', 'r']
  else if isPrintable c then [c]
  else escapeCode c.toNat

def quoted (s : String) : String :=
  let chars := s.toList
  let quote := quoteFor chars
  String.ofList (quote :: (chars.flatMap (quoteChar quote) ++ [quote]))

def quoteByte (quote : Char) (b : UInt8) : List Char :=
  let c := Char.ofNat b.toNat
  if b < 0x7F then
    if isPrintable c || c == '\t' || c == '\n' || c == '\r' then quoteChar quote c
    else escapeCode b.toNat
  else escapeCode b.toNat

def quotedBytes (bytes : List UInt8) : String :=
  let quote := quoteFor (bytes.map fun b => Char.ofNat b.toNat)
  String.ofList ('b' :: quote :: (bytes.flatMap (quoteByte quote) ++ [quote]))

end KubeAtlas.Text
