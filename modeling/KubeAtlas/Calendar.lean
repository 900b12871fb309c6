import KubeAtlas.Text.Digit
/-!
# Dates and times of day

Days of the Gregorian calendar for the years 1 to 9999, and moments with an optional offset from
universal time. A moment without an offset is only comparable to others without one; two moments
with offsets are the same when they denote the same instant.
-/

namespace KubeAtlas

structure Date where
  year : Nat
  month : Nat
  day : Nat
deriving DecidableEq, Repr

/-- A time on a day, in microseconds precision, with the offset in seconds if one is known. -/
structure Moment where
  date : Date
  hour : Nat
  minute : Nat
  second : Nat
  micro : Nat
  offset : Option Int
deriving DecidableEq, Repr

namespace Date

def isLeapYear (year : Nat) : Bool := year % 4 == 0 && (year % 100 != 0 || year % 400 == 0)

def monthLength (year month : Nat) : Nat :=
  if month == 2 then (if isLeapYear year then 29 else 28)
  else if month == 4 || month == 6 || month == 9 || month == 11 then 30
  else 31

def isValid (d : Date) : Bool :=
  1 ≤ d.year && d.year ≤ 9999 && 1 ≤ d.month && d.month ≤ 12 && 1 ≤ d.day &&
    d.day ≤ monthLength d.year d.month

def daysBeforeYear (year : Nat) : Nat :=
  let y := year - 1
  y * 365 + y / 4 - y / 100 + y / 400

/-- The position of a day in the calendar, the first day of year 1 being day 1. -/
def ordinal (d : Date) : Nat :=
  (List.range (d.month - 1)).foldl (fun days m => days + monthLength d.year (m + 1))
    (daysBeforeYear d.year) + d.day

def text (d : Date) : List Char :=
  Text.decimalPad 4 d.year ++ '-' :: (Text.decimalPad 2 d.month ++ '-' :: Text.decimalPad 2 d.day)

end Date

namespace Moment

/-- Offsets are less than a day, either way. -/
def isValid (m : Moment) : Bool :=
  m.date.isValid && m.hour < 24 && m.minute < 60 && m.second < 60 && m.micro < 1000000 &&
    match m.offset with
    | none => true
    | some o => -86400 < o && o < 86400

/-- Microseconds since the calendar began, in universal time when the offset is known. -/
def instant (m : Moment) : Int :=
  let seconds : Int := ((m.date.ordinal * 24 + m.hour) * 60 + m.minute) * 60 + m.second
  (seconds - m.offset.getD 0) * 1000000 + m.micro

def offsetText (o : Int) : List Char :=
  let size := o.natAbs
  (if o < 0 then '-' else '+') :: (Text.decimalPad 2 (size / 3600) ++
    ':' :: (Text.decimalPad 2 (size / 60 % 60) ++
      if size % 60 = 0 then [] else ':' :: Text.decimalPad 2 (size % 60)))

def text (separator : Char) (m : Moment) : List Char :=
  m.date.text ++ separator :: (Text.decimalPad 2 m.hour ++ ':' :: (Text.decimalPad 2 m.minute ++
    ':' :: (Text.decimalPad 2 m.second ++
      (if m.micro = 0 then [] else '.' :: Text.decimalPad 6 m.micro) ++
      (m.offset.map offsetText).getD [])))

end Moment
end KubeAtlas
