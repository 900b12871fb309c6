import KubeAtlas.Text.Digit
/-!
# Tags

A tag says what a node is. Where none is written, a collection is a sequence or a mapping, and a
plain scalar is what its text has the form of: a truth value, a number, a date, nothing at all, or
one of the marks that only mean something as a key. Any other text is text.

Forms are recognised by functions on characters that take what belongs to the form from the front
and answer with what follows. A form fits when nothing follows but at most one line feed.
-/

namespace KubeAtlas.Yaml

inductive Tag where
  | null | bool | int | float | binary | timestamp | str | seq | map | set
  /-- A sequence of pairs whose keys differ. -/
  | omap
  | pairs
  | merge
  /-- The key whose value stands for the mapping where a scalar is wanted. -/
  | value
  | unknown
deriving DecidableEq, Repr, Inhabited

def Tag.names : List (String × Tag) := [
  ("null", .null), ("bool", .bool), ("int", .int), ("float", .float), ("binary", .binary),
  ("timestamp", .timestamp), ("omap", .omap), ("pairs", .pairs), ("set", .set), ("str", .str),
  ("seq", .seq), ("map", .map), ("merge", .merge), ("value", .value)
]

def Tag.ofName (name : String) : Tag :=
  match names.find? fun e => "tag:yaml.org,2002:" ++ e.1 == name with
  | some (_, t) => t
  | none => .unknown

namespace Form

/-- What follows a form at the front of a text, if the form is there. -/
abbrev Rest := Option (List Char)

def one (p : Char → Bool) : List Char → Rest
  | c :: rest => if p c then some rest else none
  | [] => none

def digit : List Char → Rest := one Char.isDigit

def many (p : Char → Bool) (s : List Char) : Rest := some (s.dropWhile p)

def some1 (p : Char → Bool) (s : List Char) : Rest := (one p s).bind (many p)

def optional (form : List Char → Rest) (s : List Char) : Rest := (form s).orElse fun _ => some s

/-- The text, and the end or a line feed at the end. -/
def isWhole (form : List Char → Rest) (s : List Char) : Bool :=
  match form s with
  | some [] | some ['\n'] => true
  | _ => false

def isSign (c : Char) : Bool := c == '-' || c == '+'

def isDigitOrLine (c : Char) : Bool := c.isDigit || c == '_'

def oneOrTwoDigits (s : List Char) : Rest := (digit s).bind (optional digit)

def twoDigits (s : List Char) : Rest := (digit s).bind digit

def char (c : Char) : List Char → Rest := one (· == c)

/-- Sixties after the first number: a colon and a number below sixty, at least once. The first digit
of two is at most five. -/
def sixties : Nat → List Char → Rest
  | 0, _ => none
  | fuel + 1, s =>
    let next := match s with
      | ':' :: a :: b :: rest =>
        if '0' ≤ a && a ≤ '5' && b.isDigit then some rest
        else if a.isDigit then some (b :: rest) else none
      | [':', a] => if a.isDigit then some [] else none
      | _ => none
    next.map fun rest => (sixties fuel rest).getD rest

/-- The power of ten of a real number: its sign is written. -/
def power (s : List Char) : Rest :=
  (one (fun c => c == 'e' || c == 'E') s).bind fun s => (one isSign s).bind (some1 Char.isDigit)

def words (ws : List String) (s : List Char) : Rest :=
  (ws.find? fun w => w.toList.isPrefixOf s).map fun w => s.drop w.length

def isWord (ws : List String) (s : List Char) : Bool := ws.any fun w => isWhole (words [w]) s

def isNull (s : List Char) : Bool := s.isEmpty || isWord ["~", "null", "Null", "NULL"] s

def isBool (s : List Char) : Bool :=
  isWord ["yes", "Yes", "YES", "no", "No", "NO", "true", "True", "TRUE", "false", "False", "FALSE",
    "on", "On", "ON", "off", "Off", "OFF"] s

/-- Digits after a first digit, lines between them allowed. -/
def digitsAndLines (s : List Char) : Rest := (digit s).bind (many isDigitOrLine)

def isFloat (s : List Char) : Bool :=
  let unsigned := (optional (one isSign) s).getD s
  isWhole (fun s => (digitsAndLines s).bind fun s => (char '.' s).bind fun s =>
    (many isDigitOrLine s).bind (optional power)) unsigned ||
  isWhole (fun s => (char '.' s).bind fun s => (digitsAndLines s).bind (optional power)) s ||
  isWhole (fun s => (digitsAndLines s).bind fun s => (sixties s.length s).bind fun s =>
    (char '.' s).bind (many isDigitOrLine)) unsigned ||
  isWhole (words [".inf", ".Inf", ".INF"]) unsigned ||
  isWhole (words [".nan", ".NaN", ".NAN"]) s

def isInt (s : List Char) : Bool :=
  let unsigned := (optional (one isSign) s).getD s
  let first19 := one fun c => '1' ≤ c && c ≤ '9'
  isWhole (fun s => (words ["0b"] s).bind (some1 fun c => c == '0' || c == '1' || c == '_'))
    unsigned ||
  isWhole (fun s => (char '0' s).bind (some1 fun c => ('0' ≤ c && c ≤ '7') || c == '_')) unsigned ||
  isWhole (char '0') unsigned ||
  isWhole (fun s => (first19 s).bind (many isDigitOrLine)) unsigned ||
  isWhole (fun s => (words ["0x"] s).bind (some1 fun c => Text.isHexDigit c || c == '_'))
    unsigned ||
  isWhole (fun s => (first19 s).bind fun s => (many isDigitOrLine s).bind fun s =>
    sixties s.length s) unsigned

def year (s : List Char) : Rest := (twoDigits s).bind fun s => (twoDigits s).bind (char '-')

def isSpaceOrTab (c : Char) : Bool := c == ' ' || c == '\t'

def beforeTime (s : List Char) : Rest :=
  (one (fun c => c == 'T' || c == 't') s).orElse fun _ => some1 isSpaceOrTab s

def offset (s : List Char) : Rest :=
  (many isSpaceOrTab s).bind fun s => (char 'Z' s).orElse fun _ =>
    (one isSign s).bind fun s => (oneOrTwoDigits s).bind
      (optional fun s => (char ':' s).bind twoDigits)

def time (s : List Char) : Rest :=
  (oneOrTwoDigits s).bind fun s => (char ':' s).bind fun s => (twoDigits s).bind fun s =>
    (char ':' s).bind fun s => (twoDigits s).bind fun s =>
      (optional (fun s => (char '.' s).bind (many Char.isDigit)) s).bind (optional offset)

def monthAndDay (s : List Char) : Rest :=
  (oneOrTwoDigits s).bind fun s => (char '-' s).bind oneOrTwoDigits

def isTimestamp (s : List Char) : Bool :=
  isWhole (fun s => (year s).bind fun s => (twoDigits s).bind fun s => (char '-' s).bind twoDigits)
    s ||
  isWhole (fun s => (year s).bind fun s => (monthAndDay s).bind fun s => (beforeTime s).bind time) s

end Form

def Tag.ofForm (text : String) : Tag :=
  let s := text.toList
  if Form.isBool s then .bool
  else if Form.isFloat s then .float
  else if Form.isInt s then .int
  else if Form.isWord ["<<"] s then .merge
  else if Form.isNull s then .null
  else if Form.isTimestamp s then .timestamp
  else if Form.isWord ["="] s then .value
  else if Form.isWord ["!", "&", "*"] s then .unknown
  else .str

end KubeAtlas.Yaml
