import Stencil.Yaml.Number

/-!
# YAML — dates

Dates and times in scalars. A date is written with a year of four digits; a time may follow it, with a
fraction of a second and a zone.
-/

namespace Stencil

open Stencil.Text (isDigit isTabOrSpace)

namespace Yaml

/-- A date as it is written: a day, or a day and a time; whether the month and the day of the month have
two digits, and whether the fraction of the second is rounded up to the next second. -/
structure WrittenDate where
  day : Day
  isFull : Bool
  clock : Option Clock := none
  isLater : Bool := false
  zone : Option Zone := none

/-- The number of a part of a date, and the rest. -/
def datePart? (least most : Nat) (cs : List Char) : Option (Nat × List Char) :=
  let digits := cs.takeWhile isDigit
  if least ≤ digits.length && digits.length ≤ most then
    (number? 10 digits).map fun n => (n, cs.drop digits.length)
  else none

/-- The text after a character. -/
def after? (c : Char) : List Char → Option (List Char)
  | d :: cs => if c = d then some cs else none
  | [] => none

/-- Reads a day, and the rest. -/
def day? (cs : List Char) : Option (Day × Bool × List Char) := do
  let (year, cs) ← datePart? 4 4 cs
  let cs ← after? '-' cs
  let (month, cs') ← datePart? 1 2 cs
  let cs' ← after? '-' cs'
  let (dayOfMonth, rest) ← datePart? 1 2 cs'
  return (⟨year, month, dayOfMonth⟩, (datePart? 2 2 cs).isSome && (datePart? 2 2 cs').isSome, rest)

/-- The millionths of a second that a fraction stands for, rounded by its seventh digit. -/
def millionths (fraction : List Char) : Nat :=
  let six := (fraction.take 6 ++ List.replicate 6 '0').take 6
  Number.digitsValue six + if (fraction[6]?).any fun c => '4' < c then 1 else 0

/-- Reads a zone, which may be missing. It is named as it is written. -/
def zone? (cs : List Char) : Option (Option Zone) :=
  let named := cs.dropWhile isTabOrSpace
  let zone (ahead : Int) : Option Zone := some ⟨ahead, String.ofList named⟩
  match named with
  | [] => if cs.isEmpty then some none else none
  | ['Z'] => some (zone 0)
  | c :: cs =>
    if c = '+' || c = '-' then
      let sign : Int := if c = '-' then -1 else 1
      match datePart? 1 2 cs with
      | some (hours, []) => some (zone (sign * (hours * 60)))
      | some (hours, ':' :: cs) =>
        match datePart? 2 2 cs with
        | some (minutes, []) => some (zone (sign * (hours * 60 + minutes)))
        | _ => none
      | _ => none
    else none

/-- Reads a time of day, whether it is rounded up to the next second, and its zone. -/
def clock? (cs : List Char) : Option (Clock × Bool × Option Zone) := do
  let (hour, cs) ← datePart? 1 2 cs
  let cs ← after? ':' cs
  let (minute, cs) ← datePart? 2 2 cs
  let cs ← after? ':' cs
  let (second, cs) ← datePart? 2 2 cs
  let (fraction, cs) := match cs with
    | '.' :: cs => (cs.takeWhile isDigit, cs.dropWhile isDigit)
    | cs => ([], cs)
  let parts := millionths fraction
  return (⟨hour, minute, second, parts % 1000000⟩, parts = 1000000, ← zone? cs)

/-- The time that follows a day, without what divides them. -/
def afterDay? : List Char → Option (List Char)
  | c :: cs =>
    if c = 'T' || c = 't' then some cs
    else if isTabOrSpace c then some (cs.dropWhile isTabOrSpace)
    else none
  | [] => none

/-- Reads a date. -/
def written? (cs : List Char) : Option WrittenDate := do
  match ← day? cs with
  | (d, isFull, []) => return { day := d, isFull }
  | (d, isFull, rest) =>
    let (clock, isLater, zone) ← clock? (← afterDay? rest)
    return { day := d, isFull, clock, isLater, zone }

/-- Whether a plain scalar has the form of a date. -/
def isDate (cs : List Char) : Bool :=
  (written? cs).any fun w => w.isFull || w.clock.isSome

/-- What is wrong with a date. The zone is looked at first. -/
def WrittenDate.problem? (w : WrittenDate) : Option DateProblem :=
  ((w.zone.bind Zone.problem?).or w.day.problem?).or (w.clock.bind Clock.problem?)

/-- The date that a scalar stands for. -/
def dateOf (text : String) : YamlResult Yaml :=
  match written? text.toList with
  | none => .error .malformed
  | some w =>
    match w.problem?, w.clock with
    | some problem, _ => .error (.badDate problem)
    | none, none => .ok (.day w.day)
    | none, some clock =>
      let m : Moment := ⟨w.day, clock, w.zone⟩
      let m := if w.isLater then m.next else m
      if Day.lastYear < m.day.year then .error .dateOverflow else .ok (.moment m)

end Yaml

end Stencil
