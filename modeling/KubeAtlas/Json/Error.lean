import KubeAtlas.Number.Reading
/-!
# Errors of JSON text

An error names what was expected and where, by line, column and offset. Lines end at a line feed;
columns count from one and offsets from zero, in characters.
-/

namespace KubeAtlas.Json

inductive Cause where
  | byteOrderMark
  | value
  | propertyName
  | colon
  | comma
  | extraData
  | unterminatedString
  | controlCharacter
  | escape
  | unicodeEscape
  /-- An integer of more digits than are read. -/
  | longInteger (digits : Nat)
deriving DecidableEq, Repr

/-- A cause with the offset it was found at and the line and column of that offset. -/
structure Error where
  cause : Cause
  offset : Nat
  line : Nat
  column : Nat
deriving DecidableEq, Repr

def Error.at (text : List Char) (cause : Cause) (offset : Nat) : Error :=
  let before := text.take offset
  let lastLine := before.reverse.takeWhile (· != '\n')
  ⟨cause, offset, before.count '\n' + 1, lastLine.length + 1⟩

def Cause.message : Cause → String
  | byteOrderMark => "Unexpected UTF-8 BOM (decode using utf-8-sig)"
  | value => "Expecting value"
  | propertyName => "Expecting property name enclosed in double quotes"
  | colon => "Expecting ':' delimiter"
  | comma => "Expecting ',' delimiter"
  | extraData => "Extra data"
  | unterminatedString => "Unterminated string starting at"
  | controlCharacter => "Invalid control character at"
  | escape => "Invalid \\escape"
  | unicodeEscape => "Invalid \\uXXXX escape"
  | longInteger digits => s!"Exceeds the limit ({Number.maxDigits} digits) for integer string " ++
      s!"conversion: value has {digits} digits; " ++
      "use sys.set_int_max_str_digits() to increase the limit"

/-- Whether the text is not JSON. An integer that is too long to be read is JSON. -/
def Error.isMalformed (e : Error) : Bool :=
  match e.cause with
  | .longInteger _ => false
  | _ => true

def Error.message (e : Error) : String :=
  if e.isMalformed then
    s!"{e.cause.message}: line {e.line} column {e.column} (char {e.offset})"
  else e.cause.message

end KubeAtlas.Json
