import KubeAtlas.Number.Reading
import KubeAtlas.Table
import KubeAtlas.Text.Quoted
/-!
# Data as trees

What a value looks like from one position: a finite tree. A container that holds itself is cut at
the point where the walk comes back to it, and the cut says how many levels up the container
stands.

A datum has two texts. `display` shows what it is, text in quotes and containers with their
brackets; `text` is the same except that text stands for itself and dates are written as dates.
-/

namespace KubeAtlas

inductive Datum where
  | scalar (s : Scalar)
  | date (d : Date)
  | moment (m : Moment)
  | list (items : List Datum)
  | tuple (items : List Datum)
  | set (items : List Datum)
  | map (entries : List (Datum × Datum))
  /-- The container this many levels up; one level up is the container that holds this position. -/
  | cycle (up : Nat)
deriving Repr, Inhabited

namespace Datum

abbrev null : Datum := .scalar .null
abbrev bool (b : Bool) : Datum := .scalar (.bool b)
abbrev int (n : Int) : Datum := .scalar (.int n)
abbrev float (x : Binary64) : Datum := .scalar (.float x)
abbrev str (s : String) : Datum := .scalar (.str s)

def kind : Datum → Kind
  | scalar s => s.kind
  | date _ => .date
  | moment _ => .moment
  | list _ => .list
  | tuple _ => .tuple
  | set _ => .set
  | map _ => .map
  | cycle _ => .list

/-- Whether the value counts as present: not null, false, zero or empty. -/
def isTruthy : Datum → Bool
  | scalar s => s.isTruthy
  | list items | tuple items | set items => !items.isEmpty
  | map entries => !entries.isEmpty
  | date _ | moment _ | cycle _ => true

def str? : Datum → Option String
  | scalar (.str s) => some s
  | _ => none

mutual

def key? : Datum → Option Key
  | scalar s => some (.atom s.key)
  | date d => some (.atom (.date d))
  | moment m => some (.atom m.key)
  | tuple items => (keys? items).map .tuple
  | list _ | set _ | map _ | cycle _ => none

def keys? : List Datum → Option (List Key)
  | [] => some []
  | d :: rest => match key? d, keys? rest with
    | some k, some ks => some (k :: ks)
    | _, _ => none

end

instance : Labelled Datum (Option Key) := ⟨key?⟩

def get? (name : String) : Datum → Option Datum
  | map entries => (entries.find? fun e => e.1.key? = some (.str name)).map (·.2)
  | _ => none

mutual

/-- Whether the value can be shown: an integer of too many decimal digits cannot. -/
def isShowable : Datum → Bool
  | scalar (.int n) => Number.isWritable n
  | scalar _ | date _ | moment _ | cycle _ => true
  | list items | tuple items | set items => areShowable items
  | map entries => entriesShowable entries

def areShowable : List Datum → Bool
  | [] => true
  | d :: rest => isShowable d && areShowable rest

def entriesShowable : List (Datum × Datum) → Bool
  | [] => true
  | (k, v) :: rest => isShowable k && isShowable v && entriesShowable rest

end

/-- How an interval of time is shown: whole days, which may be negative, and seconds. -/
def displayInterval (seconds : Int) : String :=
  let days := seconds.fdiv 86400
  let rest := seconds.fmod 86400
  let parts := (if days = 0 then [] else [s!"days={days}"]) ++
    (if rest = 0 then [] else [s!"seconds={rest}"])
  "datetime.timedelta(" ++ (if parts.isEmpty then "0" else ", ".intercalate parts) ++ ")"

def displayMoment (m : Moment) : String :=
  let fields := [m.date.year, m.date.month, m.date.day, m.hour, m.minute] ++
    (if m.second = 0 ∧ m.micro = 0 then [] else [m.second]) ++
    (if m.micro = 0 then [] else [m.micro])
  let zone := match m.offset with
    | none => []
    | some 0 => ["tzinfo=datetime.timezone.utc"]
    | some o => ["tzinfo=datetime.timezone(" ++ displayInterval o ++ ")"]
  "datetime.datetime(" ++ ", ".intercalate (fields.map toString ++ zone) ++ ")"

def displayScalar : Scalar → String
  | .null => "None"
  | .bool true => "True"
  | .bool false => "False"
  | .int n => toString n
  | .float x => x.text
  | .str s => Text.quoted s
  | .bytes b => Text.quotedBytes b
  | .foreign name => "<opaque " ++ name ++ ">"

def displayCut : Option Kind → String
  | some .map => "\x7b...\x7d"
  | some .tuple => "(...)"
  | some .set => "set(...)"
  | _ => "[...]"

mutual

/-- The value with its brackets and quotes, below containers of the kinds in `above`. -/
def displayIn (above : List Kind) : Datum → String
  | scalar s => displayScalar s
  | date d => s!"datetime.date({d.year}, {d.month}, {d.day})"
  | moment m => displayMoment m
  | list items => "[" ++ ", ".intercalate (displayItems (.list :: above) items) ++ "]"
  | tuple [] => "()"
  | tuple [item] => "(" ++ displayIn (.tuple :: above) item ++ ",)"
  | tuple items => "(" ++ ", ".intercalate (displayItems (.tuple :: above) items) ++ ")"
  | set [] => "set()"
  | set items => "\x7b" ++ ", ".intercalate (displayItems (.set :: above) items) ++ "\x7d"
  | map entries => "\x7b" ++ ", ".intercalate (displayEntries (.map :: above) entries) ++ "\x7d"
  | cycle up => displayCut above[up - 1]?

def displayItems (above : List Kind) : List Datum → List String
  | [] => []
  | d :: rest => displayIn above d :: displayItems above rest

def displayEntries (above : List Kind) : List (Datum × Datum) → List String
  | [] => []
  | (k, v) :: rest =>
    (displayIn above k ++ ": " ++ displayIn above v) :: displayEntries above rest

end

def display (d : Datum) : String := displayIn [] d

/-- The value as part of a message: text and dates stand for themselves. -/
def text : Datum → String
  | scalar (.str s) => s
  | date d => String.ofList d.text
  | moment m => String.ofList (m.text ' ')
  | d => d.display

end Datum
end KubeAtlas
