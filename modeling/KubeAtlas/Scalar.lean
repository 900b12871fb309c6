import KubeAtlas.Number.Binary64
import KubeAtlas.Calendar
/-!
# Scalars and keys

The indivisible values that documents, configuration and answers are made of, and the keys that
mappings compare them by. A key forgets how a number is spelt: the integer one, the real one and
true are the same key, and two moments with offsets are the same key when they are the same
instant. Text and bytes are never the same key.
-/

namespace KubeAtlas

inductive Scalar where
  | null
  | bool (b : Bool)
  | int (n : Int)
  | float (x : Binary64)
  | str (s : String)
  | bytes (b : List UInt8)
  /-- A value of the host that no text format can express. -/
  | foreign (name : String)
deriving DecidableEq, Repr

inductive Key.Atom where
  | null
  | int (n : Int)
  /-- A real that is no integer, by its bits. -/
  | float (x : Binary64)
  | str (s : String)
  | bytes (b : List UInt8)
  | foreign (name : String)
  | date (d : Date)
  | wallClock (m : Moment)
  /-- A moment of known offset, in microseconds of universal time. -/
  | instant (t : Int)
deriving DecidableEq, Repr

/-- What a mapping compares its keys by. -/
inductive Key where
  | atom (a : Key.Atom)
  | tuple (items : List Key)
deriving Repr

/-- The kinds of values that behave differently where a value of the wrong kind turns up. -/
inductive Kind where
  | null | bool | int | float | str | bytes | date | moment | list | map | tuple | set | foreign
deriving DecidableEq, Repr

def Kind.name : Kind → String
  | null => "NoneType"
  | bool => "bool"
  | int => "int"
  | float => "float"
  | str => "str"
  | bytes => "bytes"
  | date => "datetime.date"
  | moment => "datetime.datetime"
  | list => "list"
  | map => "dict"
  | tuple => "tuple"
  | set => "set"
  | foreign => "Opaque"

namespace Scalar

def key : Scalar → Key.Atom
  | null => .null
  | bool b => .int (if b then 1 else 0)
  | int n => .int n
  | float x => match x.toInt? with
    | some n => .int n
    | none => .float x
  | str s => .str s
  | bytes b => .bytes b
  | foreign name => .foreign name

def isTruthy : Scalar → Bool
  | null => false
  | bool b => b
  | int n => n != 0
  | float x => !x.isZero
  | str s => !s.isEmpty
  | bytes b => !b.isEmpty
  | foreign _ => true

def kind : Scalar → Kind
  | null => .null
  | bool _ => .bool
  | int _ => .int
  | float _ => .float
  | str _ => .str
  | bytes _ => .bytes
  | foreign _ => .foreign

end Scalar

def Moment.key (m : Moment) : Key.Atom :=
  if m.offset.isSome then .instant m.instant else .wallClock m

abbrev Key.str (s : String) : Key := .atom (.str s)

mutual

def Key.decEq : (a b : Key) → Decidable (a = b)
  | .atom a, .atom b => decidable_of_iff (a = b) (by simp)
  | .tuple as, .tuple bs =>
    have := Key.decEqList as bs
    decidable_of_iff (as = bs) (by simp)
  | .atom _, .tuple _ => isFalse (by simp)
  | .tuple _, .atom _ => isFalse (by simp)

def Key.decEqList : (as bs : List Key) → Decidable (as = bs)
  | [], [] => isTrue rfl
  | [], _ :: _ => isFalse (by simp)
  | _ :: _, [] => isFalse (by simp)
  | a :: as, b :: bs =>
    match Key.decEq a b, Key.decEqList as bs with
    | isTrue h, isTrue hs => isTrue (by rw [h, hs])
    | isFalse h, _ => isFalse (by simp [h])
    | _, isFalse hs => isFalse (by simp [hs])

end

instance : DecidableEq Key := Key.decEq

end KubeAtlas
