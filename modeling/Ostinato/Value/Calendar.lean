import Ostinato.Number.Shortest

/-!
# Dates and times of day

The calendar values that a document can hold, in the proleptic Gregorian calendar from year 1 to
year 9999. They matter through their text and, as keys, through the instants that they name.
-/

namespace Ostinato

/-- A calendar date. -/
structure Date where
  year : Nat
  month : Nat
  day : Nat
  deriving DecidableEq, Repr

namespace Date

/-- Whether a year has a leap day. -/
def isLeap (year : Nat) : Bool :=
  year % 4 = 0 && (year % 100 ≠ 0 || year % 400 = 0)

/-- The number of days of a month. -/
def daysIn (year month : Nat) : Nat :=
  if month = 2 then (if isLeap year then 29 else 28)
  else if month = 4 ∨ month = 6 ∨ month = 9 ∨ month = 11 then 30
  else 31

/-- Whether the calendar has this date. -/
def isValid (d : Date) : Bool :=
  1 ≤ d.year && d.year ≤ 9999 && 1 ≤ d.month && d.month ≤ 12 && 1 ≤ d.day &&
    d.day ≤ daysIn d.year d.month

/-- The days from the first day of year 1 to a date. -/
def dayNumber (d : Date) : Nat :=
  let past := d.year - 1
  past * 365 + past / 4 - past / 100 + past / 400 +
    (((List.range (d.month - 1)).map fun m => daysIn d.year (m + 1)).foldl (· + ·) 0) + (d.day - 1)

end Date

/-- A date with a time of day and, perhaps, an offset from universal time in seconds. -/
structure Moment where
  date : Date
  hour : Nat
  minute : Nat
  second : Nat
  microsecond : Nat
  offset : Option Int
  deriving DecidableEq, Repr

/-- Whether the clock and the calendar have this moment; an offset is shorter than a day. -/
def Moment.isValid (m : Moment) : Bool :=
  m.date.isValid && m.hour < 24 && m.minute < 60 && m.second < 60 && m.microsecond < 1000000 &&
    m.offset.all fun o => o.natAbs < 86400

/-- The microseconds from the start of year 1 to a moment, counted on its own clock. -/
def Moment.clock (m : Moment) : Int :=
  (((m.date.dayNumber * 24 + m.hour) * 60 + m.minute) * 60 + m.second) * 1000000 + m.microsecond

/-- Whether two moments are the same instant. Only moments with offsets can be compared across
clocks; one without an offset is the same as those that show the same time without one. -/
def Moment.sameInstant (m n : Moment) : Bool :=
  match m.offset, n.offset with
  | none, none => m.clock = n.clock
  | some o, some p => m.clock - o * 1000000 = n.clock - p * 1000000
  | _, _ => false

/-- A number with leading zeros up to a width. -/
def paddedChars (width n : Nat) : List Char :=
  let digits := Nat.toDigits 10 n
  List.replicate (width - digits.length) '0' ++ digits

/-- The text of a date: `2024-01-05`. -/
def Date.chars (d : Date) : List Char :=
  paddedChars 4 d.year ++ '-' :: paddedChars 2 d.month ++ '-' :: paddedChars 2 d.day

/-- The text of an offset: `+05:30`, with seconds only if there are any. -/
def offsetChars (o : Int) : List Char :=
  let n := o.natAbs
  (if o < 0 then '-' else '+') :: paddedChars 2 (n / 3600) ++ ':' :: paddedChars 2 (n / 60 % 60) ++
    if n % 60 = 0 then [] else ':' :: paddedChars 2 (n % 60)

/-- The text of a moment: `2024-01-05 10:30:00`, with microseconds only if there are any. -/
def Moment.chars (m : Moment) : List Char :=
  m.date.chars ++ ' ' :: paddedChars 2 m.hour ++ ':' :: paddedChars 2 m.minute ++
    ':' :: paddedChars 2 m.second ++
    (if m.microsecond = 0 then [] else '.' :: paddedChars 6 m.microsecond) ++
    match m.offset with
    | none => []
    | some o => offsetChars o

/-- Numbers between commas. -/
def commaChars (ns : List Nat) : List Char :=
  (ns.map (Nat.toDigits 10)).intersperse [',', ' '] |>.flatten

/-- The unambiguous text of a date: its three numbers under the name of the type. -/
def Date.describe (d : Date) : List Char :=
  "datetime.date(".toList ++ commaChars [d.year, d.month, d.day] ++ [')']

/-- The unambiguous text of an offset: days, which are 0 or -1, and seconds of the day. -/
def describeOffset (o : Int) : List Char :=
  if o = 0 then "datetime.timezone.utc".toList
  else
    let span := if o < 0 then "days=-1, seconds=".toList ++ Nat.toDigits 10 (o + 86400).toNat
      else "seconds=".toList ++ Nat.toDigits 10 o.toNat
    "datetime.timezone(datetime.timedelta(".toList ++ span ++ "))".toList

/-- The unambiguous text of a moment: seconds and microseconds are left out while they are zero. -/
def Moment.describe (m : Moment) : List Char :=
  let tail := if m.microsecond ≠ 0 then [m.second, m.microsecond]
    else if m.second ≠ 0 then [m.second] else []
  "datetime.datetime(".toList ++
    commaChars ([m.date.year, m.date.month, m.date.day, m.hour, m.minute] ++ tail) ++
    (match m.offset with
    | none => []
    | some o => ", tzinfo=".toList ++ describeOffset o) ++ [')']

end Ostinato
