import KubeAtlas.Datum
/-!
# Writing JSON

Text is written in ASCII: everything outside it, and every control character, is escaped by code
unit. Names of members are text; a number, true, false or null used as a name is written as the text
of that value. What JSON has no form for is refused, and so are an integer of too many digits and a
container inside itself; the first of these that is met is what a datum fails with.
-/

namespace KubeAtlas.Json

def unitEscape (n : Nat) : List Char := '\\' :: 'u' :: Text.hexPad 4 n

def stringChar (c : Char) : List Char :=
  match c with
  | '\x22' => ['\\', '\x22']
  | '\\' => ['\\', '\\']
  | '\n' => ['\\', 'n']
  | '\r' => ['\\', 'r']
  | '\t' => ['\\', 't']
  | '\x08' => ['\\', 'b']
  | '\x0c' => ['\\', 'f']
  | c =>
    let n := c.toNat
    if 32 ≤ n && n < 127 then [c]
    else if n < 0x10000 then unitEscape n
    else unitEscape (0xD800 + (n - 0x10000) / 1024) ++ unitEscape (0xDC00 + (n - 0x10000) % 1024)

def writeString (s : String) : String :=
  String.ofList ('\x22' :: (s.toList.flatMap stringChar ++ ['\x22']))

def writeFloat (x : Binary64) : String :=
  if x.isNaN then "NaN"
  else if x.isInfinite then (if x.isNegative then "-Infinity" else "Infinity")
  else x.text

structure Spacing where
  item : String
  colon : String

def Spacing.compact : Spacing := ⟨",", ":"⟩

def Spacing.wide : Spacing := ⟨", ", ": "⟩

inductive Obstacle where
  | noForm (k : Kind)
  | noName (k : Kind)
  | longInteger
  | circular
deriving DecidableEq, Repr

def writeScalar : Scalar → Except Obstacle String
  | .null => pure "null"
  | .bool true => pure "true"
  | .bool false => pure "false"
  | .int n => if Number.isWritable n then pure (toString n) else throw .longInteger
  | .float x => pure (writeFloat x)
  | .str s => pure (writeString s)
  | .bytes _ => throw (.noForm .bytes)
  | .foreign _ => throw (.noForm .foreign)

def writeName : Datum → Except Obstacle String
  | .scalar (.str s) => pure (writeString s)
  | .scalar (.bytes _) => throw (.noName .bytes)
  | .scalar (.foreign _) => throw (.noName .foreign)
  | .scalar s => (writeScalar s).map writeString
  | d => throw (.noName d.kind)

mutual

/-- The JSON text of a datum, or what is met first that cannot be written. -/
def write (sp : Spacing) : Datum → Except Obstacle String
  | .scalar s => writeScalar s
  | .list items | .tuple items => do
    let parts ← writeItems sp items
    pure ("[" ++ sp.item.intercalate parts ++ "]")
  | .map entries => do
    let parts ← writeMembers sp entries
    pure ("\x7b" ++ sp.item.intercalate parts ++ "\x7d")
  | .date _ => throw (.noForm .date)
  | .moment _ => throw (.noForm .moment)
  | .set _ => throw (.noForm .set)
  | .cycle _ => throw .circular

def writeItems (sp : Spacing) : List Datum → Except Obstacle (List String)
  | [] => pure []
  | d :: rest => do
    let text ← write sp d
    let texts ← writeItems sp rest
    pure (text :: texts)

def writeMembers (sp : Spacing) : List (Datum × Datum) → Except Obstacle (List String)
  | [] => pure []
  | (k, v) :: rest => do
    let name ← writeName k
    let text ← write sp v
    let texts ← writeMembers sp rest
    pure ((name ++ sp.colon ++ text) :: texts)

end

end KubeAtlas.Json
