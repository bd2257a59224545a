/-!
# Calendar — days

Days of the calendar, from the year 1 to the year 9999. Days are counted from the first day of the
year 1, so that they can be compared with times in other zones.
-/

namespace Stencil

/-- A day of the calendar. -/
structure Day where
  year : Nat
  month : Nat
  day : Nat
  deriving DecidableEq, Repr, Inhabited

/-- Why a day or a time of day is none, or a zone: one is less than a day away from the common zone. -/
inductive DateProblem where
  | year (year : Nat)
  | month
  | day
  | hour
  | minute
  | second
  | zone (minutes : Int)
  deriving DecidableEq, Repr, Inhabited

/-- A number of at least so many digits. -/
def padded (places n : Nat) : String :=
  let digits := Nat.toDigits 10 n
  String.ofList (List.replicate (places - digits.length) '0' ++ digits)

namespace Day

-- The zero of a sum is the numeral's, whatever else is imported.
attribute [local instance (high)] Zero.ofOfNat0

/-- The last year there is. -/
def lastYear : Nat := 9999

/-- Whether a year has one day more. -/
def isLeap (year : Nat) : Bool :=
  year % 4 = 0 && (year % 100 ≠ 0 || year % 400 = 0)

/-- How many days a month has. -/
def daysIn (year month : Nat) : Nat :=
  if month = 2 then if isLeap year then 29 else 28
  else if [4, 6, 9, 11].contains month then 30
  else 31

/-- What is wrong with a day. -/
def problem? (d : Day) : Option DateProblem :=
  if d.year = 0 || lastYear < d.year then some (.year d.year)
  else if d.month = 0 || 12 < d.month then some .month
  else if d.day = 0 || daysIn d.year d.month < d.day then some .day
  else none

/-- The day after a day. -/
def next (d : Day) : Day :=
  if d.day < daysIn d.year d.month then { d with day := d.day + 1 }
  else if d.month < 12 then ⟨d.year, d.month + 1, 1⟩
  else ⟨d.year + 1, 1, 1⟩

/-- How many days there are before a year. -/
def beforeYear (year : Nat) : Nat :=
  let y := year - 1
  y * 365 + y / 4 - y / 100 + y / 400

/-- How many days there are before a day. -/
def count (d : Day) : Nat :=
  let months := (List.range (d.month - 1)).map fun m => daysIn d.year (m + 1)
  beforeYear d.year + months.sum + (d.day - 1)

/-- The text of a day. -/
def text (d : Day) : String :=
  s!"{padded 4 d.year}-{padded 2 d.month}-{padded 2 d.day}"

/-- Whether a day comes before another. -/
def isBefore (d e : Day) : Bool :=
  d.count < e.count

end Day

end Stencil
