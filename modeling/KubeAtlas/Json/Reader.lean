import KubeAtlas.Datum
import KubeAtlas.Table
import KubeAtlas.Json.Error
import KubeAtlas.Number.Reading
/-!
# Reading JSON

A recursive descent over the characters that are left. Every failure carries how many characters
were left when it was found, so its offset is known without counting on the way. Of two members of
an object with one name the later value is kept, in the earlier one's place. `NaN`, `Infinity` and
`-Infinity` are numbers here. An integer of too many digits is not read, though the text is JSON.

Two limits of a host are not kept to. Values may be nested to any depth, where a host that recurses
gives up at some depth of its own. And text has no lone surrogates: an escape for one becomes
`U+FFFD`, where a host whose text can hold it keeps it, and fails when it is to be encoded.

The readers of values, members and elements call each other at most once for every character they
take, which is the bound they are given.
-/

namespace KubeAtlas.Json

/-- A failure: its cause and how many characters were left. -/
abbrev Failure := Cause × Nat

def isSpace (c : Char) : Bool := c == ' ' || c == '\t' || c == '\n' || c == '\r'

def skipSpace (s : List Char) : List Char := s.dropWhile isSpace

def fail {α : Type} (cause : Cause) (s : List Char) : Except Failure α :=
  throw (cause, s.length)

def simpleEscape? : Char → Option Char
  | '\x22' => some '\x22'
  | '\\' => some '\\'
  | '/' => some '/'
  | 'b' => some '\x08'
  | 'f' => some '\x0c'
  | 'n' => some '\n'
  | 'r' => some '\r'
  | 't' => some '\t'
  | _ => none

def fourHex? : List Char → Option Nat
  | [a, b, c, d] => do
    let a ← Text.hexDigit? a
    let b ← Text.hexDigit? b
    let c ← Text.hexDigit? c
    let d ← Text.hexDigit? d
    some (((a * 16 + b) * 16 + c) * 16 + d)
  | _ => none

def isHighSurrogate (n : Nat) : Bool := 0xD800 ≤ n && n < 0xDC00
def isLowSurrogate (n : Nat) : Bool := 0xDC00 ≤ n && n < 0xE000

/-- The character of a code unit; a surrogate on its own has none and becomes `U+FFFD`. -/
def unitChar (n : Nat) : Char :=
  if isHighSurrogate n || isLowSurrogate n then '\uFFFD' else Char.ofNat n

/-- The escape after `\u`, whose digits are at the front of `s`: the character, and how many of
the characters of `s` it takes. The digits must not end the text. -/
def unicodeEscape (s : List Char) : Except Failure (Char × Nat) :=
  if s.length ≤ 4 then throw (.unicodeEscape, s.length + 1)
  else match fourHex? (s.take 4) with
    | none => throw (.unicodeEscape, s.length + 1)
    | some high =>
      match isHighSurrogate high, s.drop 4 with
      | true, '\\' :: 'u' :: rest =>
        if rest.length ≤ 4 then pure (unitChar high, 4)
        else match fourHex? (rest.take 4) with
          | none => throw (.unicodeEscape, rest.length + 1)
          | some low =>
            if isLowSurrogate low then
              pure (Char.ofNat (0x10000 + (high - 0xD800) * 1024 + (low - 0xDC00)), 10)
            else pure (unitChar high, 4)
      | _, _ => pure (unitChar high, 4)

/-- The rest of a string whose opening quote, with what follows it, had `opening` characters. -/
def stringBody (opening : Nat) : Nat → List Char → List Char → Except Failure (String × List Char)
  | 0, _, _ => throw (.unterminatedString, opening)
  | _ + 1, _, [] => throw (.unterminatedString, opening)
  | fuel + 1, read, c :: rest =>
    if c == '\x22' then pure (String.ofList read.reverse, rest)
    else if c == '\\' then
      match rest with
      | [] => throw (.unterminatedString, opening)
      | 'u' :: rest => do
        let (char, size) ← unicodeEscape rest
        stringBody opening fuel (char :: read) (rest.drop size)
      | e :: rest' =>
        match simpleEscape? e with
        | some char => stringBody opening fuel (char :: read) rest'
        | none => fail .escape (c :: rest)
    else if c.toNat < 32 then fail .controlCharacter (c :: rest)
    else stringBody opening fuel (c :: read) rest

/-- A string whose opening quote has just been taken. -/
def string (s : List Char) : Except Failure (String × List Char) :=
  stringBody (s.length + 1) (s.length + 1) [] s

def integerPart (s : List Char) : List Char × List Char :=
  match s with
  | '0' :: rest => (['0'], rest)
  | _ => s.span Char.isDigit

def fractionPart (s : List Char) : List Char × List Char :=
  match s with
  | '.' :: rest => match rest.span Char.isDigit with
    | ([], _) => ([], s)
    | (digits, rest) => ('.' :: digits, rest)
  | _ => ([], s)

def exponentPart (s : List Char) : List Char × List Char :=
  match s with
  | c :: rest =>
    if c == 'e' || c == 'E' then
      let (sign, rest) := match rest with
        | '-' :: rest => (['-'], rest)
        | '+' :: rest => ([], rest)
        | _ => ([], rest)
      match rest.span Char.isDigit with
      | ([], _) => ([], s)
      | (digits, rest) => ('e' :: sign ++ digits, rest)
    else ([], s)
  | [] => ([], s)

def isOver (limit : Option Nat) (digits : Nat) : Bool := limit.any (· < digits)

/-- A number, an integer when it has neither point nor exponent. -/
def number (limit : Option Nat) (s : List Char) : Except Failure (Datum × List Char) :=
  let (negative, body) := match s with
    | '-' :: rest => (true, rest)
    | _ => (false, s)
  match integerPart body with
  | ([], _) => fail .value s
  | (whole, rest) =>
    let (fraction, rest) := fractionPart rest
    let (exponent, rest) := exponentPart rest
    if fraction.isEmpty && exponent.isEmpty then
      let n : Int := Text.ofDigits 10 (whole.map fun c => c.toNat - 48)
      if isOver limit whole.length then fail (.longInteger whole.length) s
      else pure (.int (if negative then -n else n), rest)
    else
      match Number.unsignedDecimal? negative (whole ++ fraction ++ exponent) with
      | some x => pure (.float x, rest)
      | none => fail .value s

def words : List (List Char × Datum) :=
  [("null".toList, .null), ("true".toList, .bool true), ("false".toList, .bool false),
    ("NaN".toList, .float Binary64.nan), ("Infinity".toList, .float (Binary64.infinity false)),
    ("-Infinity".toList, .float (Binary64.infinity true))]

def plainValue (limit : Option Nat) (s : List Char) : Except Failure (Datum × List Char) :=
  match words.find? fun w => w.1.isPrefixOf s with
  | some (word, d) => pure (d, s.drop word.length)
  | none => number limit s

mutual

/-- The value at the front of a text that begins with no space. -/
def value (limit : Option Nat) : Nat → List Char → Except Failure (Datum × List Char)
  | 0, s => fail .value s
  | fuel + 1, s =>
    match s with
    | [] => fail .value s
    | '\x22' :: rest => do
      let (text, rest) ← string rest
      pure (.str text, rest)
    | '[' :: rest =>
      match skipSpace rest with
      | ']' :: rest => pure (.list [], rest)
      | rest => do
        let (items, rest) ← elements limit fuel rest
        pure (.list items, rest)
    | '\x7b' :: rest =>
      match skipSpace rest with
      | '\x7d' :: rest => pure (.map [], rest)
      | rest => do
        let (entries, rest) ← members limit fuel rest
        pure (.map ((Table.ofList entries).map fun e => (.str e.1, e.2)), rest)
    | _ => plainValue limit s

def elements (limit : Option Nat) : Nat → List Char → Except Failure (List Datum × List Char)
  | 0, s => fail .value s
  | fuel + 1, s => do
    let (item, rest) ← value limit fuel s
    match skipSpace rest with
    | ']' :: rest => pure ([item], rest)
    | ',' :: rest => do
      let (items, rest) ← elements limit fuel (skipSpace rest)
      pure (item :: items, rest)
    | rest => fail .comma rest

def members (limit : Option Nat) : Nat → List Char →
    Except Failure (List (String × Datum) × List Char)
  | 0, s => fail .value s
  | fuel + 1, s =>
    match s with
    | '\x22' :: rest => do
      let (name, rest) ← string rest
      match skipSpace rest with
      | ':' :: rest => do
        let (item, rest) ← value limit fuel (skipSpace rest)
        match skipSpace rest with
        | '\x7d' :: rest => pure ([(name, item)], rest)
        | ',' :: rest => do
          let (items, rest) ← members limit fuel (skipSpace rest)
          pure ((name, item) :: items, rest)
        | rest => fail .comma rest
      | rest => fail .colon rest
    | _ => fail .propertyName s

end

def document (limit : Option Nat) (s : List Char) : Except Failure Datum :=
  if s.head? == some '\uFEFF' then throw (.byteOrderMark, s.length)
  else do
    let (d, rest) ← value limit (s.length + 1) (skipSpace s)
    match skipSpace rest with
    | [] => pure d
    | rest => fail .extraData rest

/-- The datum of a text whose integers have no more digits than a limit allows. -/
def readWithin (limit : Option Nat) (text : String) : Except Error Datum :=
  let s := text.toList
  match document limit s with
  | .ok d => .ok d
  | .error (cause, left) => .error (Error.at s cause (s.length - left))

def read (text : String) : Except Error Datum := readWithin (some Number.maxDigits) text

end KubeAtlas.Json
