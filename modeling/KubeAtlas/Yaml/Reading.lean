import KubeAtlas.Calendar
import KubeAtlas.Number.Reading
import KubeAtlas.Text.Base64
import KubeAtlas.Text.Split
import KubeAtlas.Yaml.Error
/-!
# The values of scalars

What the text of a scalar means under each tag. A text found by its form always has a value, up to
ranges; under a written tag it can be anything, and then it may have none.
-/

namespace KubeAtlas.Yaml.Reading

def fault {α : Type} (f : Fault) : Except Failure α := throw (.fault f)

def bool (s : List Char) : Except Failure Bool :=
  let word := String.ofList (s.map Char.toLower)
  if word == "yes" || word == "true" || word == "on" then pure true
  else if word == "no" || word == "false" || word == "off" then pure false
  else fault .truth

/-- A sign in front, and the digits: lines between digits are only for the eye. -/
def signed (s : List Char) : Except Failure (Bool × List Char) :=
  match s.filter (· != '_') with
  | [] => fault .emptyNumber
  | '-' :: rest => pure (true, rest)
  | '+' :: rest => pure (false, rest)
  | rest => pure (false, rest)

/-- An integer of digits in a base; only decimals are limited in length. -/
def integer (base : Nat) (s : List Char) : Except Failure Int :=
  match Number.lenientInt? base s with
  | some n =>
    if base = 10 ∧ Number.maxDigits < (s.filter fun c => (Text.digitValue? c).isSome).length then
      fault .number
    else pure n
  | none => fault .number

/-- An integer: binary after `0b`, hexadecimal after `0x`, octal after another zero, else decimal,
where colons stand between sixties. -/
def int (s : List Char) : Except Failure Int := do
  let (negative, digits) ← signed s
  let n ← (match digits with
    | [] => fault .emptyNumber
    | ['0'] => pure 0
    | '0' :: 'b' :: rest => integer 2 rest
    | '0' :: 'x' :: rest => integer 16 rest
    | '0' :: rest => integer 8 ('0' :: rest)
    | digits => do
      let values ← (Text.splitAll ':' digits).mapM (integer 10)
      pure (values.foldl (fun n d => n * 60 + d) 0))
  pure (if negative then -n else n)

def sumSixties : Int → Binary64 → List Binary64 → Except Failure Binary64
  | _, sum, [] => pure sum
  | unit, sum, d :: rest =>
    match Binary64.ofInt? unit with
    | some u => sumSixties (unit * 60) (sum.add (d.mul u)) rest
    | none => fault .overflow

def float (s : List Char) : Except Failure Binary64 := do
  let (negative, digits) ← signed (s.map Char.toLower)
  if digits == ".nan".toList then pure Binary64.nan
  else
    let x ← (do
      if digits == ".inf".toList then pure (Binary64.infinity false)
      else
        let values ← (Text.splitAll ':' digits).mapM fun p => match Number.lenient? p with
          | some x => pure x
          | none => fault .number
        match values with
        | [x] => pure x
        | values => sumSixties 1 (Binary64.zero false) values.reverse)
    pure (if negative then x.negate else x)

inductive Timestamp where
  | date (d : Date)
  | moment (m : Moment)

def number? (least most : Nat) (s : List Char) : Option (Nat × List Char) :=
  let digits := (s.take most).takeWhile Char.isDigit
  if digits.length < least then none
  else some (Text.ofDigits 10 (digits.filterMap Text.asciiDigit?), s.drop digits.length)

def after? (c : Char) : List Char → Option (List Char)
  | d :: rest => if d == c then some rest else none
  | [] => none

def date? (s : List Char) : Option (Date × List Char) := do
  let (year, s) ← number? 4 4 s
  let (month, s) ← number? 1 2 (← after? '-' s)
  let (day, s) ← number? 1 2 (← after? '-' s)
  pure (⟨year, month, day⟩, s)

/-- The fraction of a second in microseconds; further digits are cut off. -/
def fraction (s : List Char) : Nat × List Char :=
  match s with
  | '.' :: rest =>
    let digits := rest.takeWhile Char.isDigit
    let six := (digits.filterMap Text.asciiDigit?).take 6
    (Text.ofDigits 10 (six ++ List.replicate (6 - six.length) 0), rest.drop digits.length)
  | s => (0, s)

def offset (s : List Char) : Option Int × List Char :=
  match s.dropWhile fun c => c == ' ' || c == '\t' with
  | 'Z' :: rest => (some 0, rest)
  | c :: rest =>
    if c == '-' || c == '+' then
      match number? 1 2 rest with
      | none => (none, s)
      | some (hours, rest) =>
        let (minutes, rest) := match (after? ':' rest).bind (number? 2 2) with
          | some (minutes, rest) => (minutes, rest)
          | none => (0, rest)
        let seconds : Int := (hours * 60 + minutes) * 60
        (some (if c == '-' then -seconds else seconds), rest)
    else (none, s)
  | [] => (none, s)

def moment? (d : Date) (s : List Char) : Option (Moment × List Char) := do
  let (hour, s) ← number? 1 2 s
  let (minute, s) ← number? 2 2 (← after? ':' s)
  let (second, s) ← number? 2 2 (← after? ':' s)
  let (micro, s) := fraction s
  let (offset, s) := offset s
  pure (⟨d, hour, minute, second, micro, offset⟩, s)

/-- s == ['\n'] || Whether nothing is left but a line feed. -/
def isEnd (s : List Char) : Bool := s.isEmpty || s == ['\n']

def timeStart? : List Char → Option (List Char)
  | c :: rest =>
    if c == 'T' || c == 't' then some rest
    else if c == ' ' || c == '\t' then some (rest.dropWhile fun c => c == ' ' || c == '\t')
    else none
  | [] => none

def timestamp (s : List Char) : Except Failure Timestamp :=
  match date? s with
  | none => fault .dateForm
  | some (d, rest) =>
    if isEnd rest then if d.isValid then pure (.date d) else fault .number
    else
      match (timeStart? rest).bind (moment? d) with
      | some (m, rest) =>
        if !isEnd rest then fault .dateForm
        else if m.isValid then pure (.moment m) else fault .number
      | none => fault .dateForm

def binary (s : List Char) : Except Failure (List UInt8) :=
  match Text.Base64.decodeLenient s with
  | .ok bytes => pure bytes
  | .error _ => throw (.malformed .binary)

end KubeAtlas.Yaml.Reading
