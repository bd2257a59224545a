import Stencil.Calendar.Day
import Stencil.Text.Quoted

/-!
# Calendar — moments

A day and a time of day, in a zone or without one. Moments in zones are compared by the time in the
common zone; a moment without a zone cannot be compared with them.
-/

namespace Stencil

/-- A time of day, to the millionth of a second. -/
structure Clock where
  hour : Nat
  minute : Nat
  second : Nat
  millionths : Nat := 0
  deriving DecidableEq, Repr, Inhabited

/-- A zone: how many minutes its clocks are ahead of those of the common zone, and its name. -/
structure Zone where
  ahead : Int
  name : String
  deriving DecidableEq, Repr, Inhabited

/-- A time on a day. -/
structure Moment where
  day : Day
  clock : Clock
  zone : Option Zone
  deriving DecidableEq, Repr, Inhabited

namespace Clock

/-- What is wrong with a time of day. -/
def problem? (c : Clock) : Option DateProblem :=
  if 23 < c.hour then some .hour
  else if 59 < c.minute then some .minute
  else if 59 < c.second then some .second
  else none

/-- The text of a time of day; a fraction of no millionths is left out. -/
def text (c : Clock) : String :=
  s!"{padded 2 c.hour}:{padded 2 c.minute}:{padded 2 c.second}" ++
    if c.millionths = 0 then "" else s!".{padded 6 c.millionths}"

/-- The seconds since the day began. -/
def seconds (c : Clock) : Nat :=
  (c.hour * 60 + c.minute) * 60 + c.second

/-- The time a second later, on the same day or on the next. -/
def next (c : Clock) : Clock :=
  let s := (c.seconds + 1) % 86400
  { c with hour := s / 3600, minute := s / 60 % 60, second := s % 60 }

end Clock

/-- A number of minutes in the notation of the host: whole days, and the seconds after them. -/
def writtenMinutes (minutes : Int) : String :=
  let days := minutes.fdiv 1440
  let seconds := minutes.fmod 1440 * 60
  let parts := (if days = 0 then [] else [s!"days={days}"]) ++
    (if seconds = 0 then [] else [s!"seconds={seconds}"])
  "datetime.timedelta(" ++ (if parts.isEmpty then "0" else ", ".intercalate parts) ++ ")"

/-- What is wrong with a day, a time of day or a zone, in words. -/
def DateProblem.message : DateProblem → String
  | year n => s!"year {n} is out of range"
  | month => "month must be in 1..12"
  | day => "day is out of range for month"
  | hour => "hour must be in 0..23"
  | minute => "minute must be in 0..59"
  | second => "second must be in 0..59"
  | zone minutes =>
    "offset must be a timedelta strictly between -timedelta(hours=24) and timedelta(hours=24), not " ++
      writtenMinutes minutes ++ "."

namespace Zone

/-- What is wrong with a zone. -/
def problem? (z : Zone) : Option DateProblem :=
  if z.ahead.natAbs < 1440 then none else some (.zone z.ahead)

/-- How far a zone is ahead, as a text. -/
def text (z : Zone) : String :=
  let minutes := z.ahead.natAbs
  (if z.ahead < 0 then "-" else "+") ++ s!"{padded 2 (minutes / 60)}:{padded 2 (minutes % 60)}"

/-- A zone in the notation of the host. -/
def written (z : Zone) : String :=
  "datetime.timezone(" ++ writtenMinutes z.ahead ++ ", " ++ Text.quoted z.name ++ ")"

end Zone

/-- A day in the notation of the host. -/
def Day.written (d : Day) : String :=
  s!"datetime.date({d.year}, {d.month}, {d.day})"

namespace Moment

/-- The text of a moment. -/
def text (m : Moment) : String :=
  m.day.text ++ " " ++ m.clock.text ++ (m.zone.map Zone.text).getD ""

/-- A moment in the notation of the host. Seconds are left out if they are none, and so are millionths. -/
def written (m : Moment) : String :=
  let c := m.clock
  let seconds := if c.second = 0 && c.millionths = 0 then [] else [c.second]
  let millionths := if c.millionths = 0 then [] else [c.millionths]
  let numbers := [m.day.year, m.day.month, m.day.day, c.hour, c.minute] ++ seconds ++ millionths
  let zone := (m.zone.map fun z => ["tzinfo=" ++ z.written]).getD []
  "datetime.datetime(" ++ ", ".intercalate (numbers.map toString ++ zone) ++ ")"

/-- The millionths of a second up to a moment, in the common zone if the moment has a zone. -/
def instant (m : Moment) : Int :=
  let ahead := (m.zone.map Zone.ahead).getD 0
  ((m.day.count * 86400 + m.clock.seconds : Nat) - ahead * 60) * 1000000 + m.clock.millionths

/-- Whether two moments both have a zone, or neither has. -/
def isComparable (m n : Moment) : Bool :=
  m.zone.isSome = n.zone.isSome

/-- Whether two moments are the same. -/
def same (m n : Moment) : Bool :=
  m.isComparable n && m.instant = n.instant

/-- Whether a moment comes before another one with which it can be compared. -/
def isBefore (m n : Moment) : Bool :=
  m.instant < n.instant

/-- The moment a second later. -/
def next (m : Moment) : Moment :=
  let clock := m.clock.next
  { m with clock, day := if clock.seconds = 0 then m.day.next else m.day }

theorem same_refl (m : Moment) : m.same m = true := by
  simp [same, isComparable]

end Moment

end Stencil
