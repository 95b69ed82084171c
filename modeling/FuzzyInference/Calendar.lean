/-!
# Dates and moments

Days of the years 1 to 9999, and moments of such days down to the millionth of a second, which may
know how far their clock is from universal time.

* `Date`, `Moment`: a day, and a moment of a day;
* `Calendar.Fault`: why numbers are no date or moment;
* `Date.make`, `Offset.make`, `Moment.make`: what numbers stand for;
* `Date.display`, `Moment.display`: digits as they are read aloud;
* `Date.literal`, `Moment.literal`: how the two are told apart from texts in messages;
* `Moment.sameAs`: whether two moments are the same point in time.
-/

namespace FuzzyInference.Calendar

/-- A day. -/
structure Date where
  year : Nat
  month : Nat
  day : Nat
  deriving Repr, DecidableEq

/-- How many minutes a clock is ahead of universal time; less than a day. -/
structure Offset where
  minutes : Int
  deriving Repr, DecidableEq

/-- A moment by the clock of a place, whose offset may be unknown. -/
structure Moment where
  date : Date
  hour : Nat
  minute : Nat
  second : Nat
  microsecond : Nat
  offset : Option Offset
  deriving Repr, DecidableEq

/-- Why numbers are no date or moment. -/
inductive Fault where
  | year (n : Nat)
  | month
  | day
  | hour
  | minute
  | second
  /-- A clock that is off by a day or more, in minutes. -/
  | offset (minutes : Int)
  deriving Repr, DecidableEq

/-! ### Text -/

/-- A number with at least `width` digits. -/
def padded (width n : Nat) : String :=
  let digits := Nat.toDigits 10 n
  String.ofList (List.replicate (width - digits.length) '0' ++ digits)

/-- How many minutes a day has. -/
def minutesOfDay : Int := 24 * 60

/-- A span of minutes as whole days, counted downwards, and the seconds left over. -/
def spanLiteral (minutes : Int) : String :=
  let days := minutes.fdiv minutesOfDay
  let seconds := minutes.fmod minutesOfDay * 60
  let parts := (if days = 0 then [] else [s!"days={days}"]) ++
    (if seconds = 0 then [] else [s!"seconds={seconds}"])
  "datetime.timedelta(" ++ ", ".intercalate (if parts.isEmpty then ["0"] else parts) ++ ")"

/-- The wording of the fault. -/
def Fault.message : Fault → String
  | .year n => s!"year {n} is out of range"
  | .month => "month must be in 1..12"
  | .day => "day is out of range for month"
  | .hour => "hour must be in 0..23"
  | .minute => "minute must be in 0..59"
  | .second => "second must be in 0..59"
  | .offset minutes =>
    "offset must be a timedelta strictly between -timedelta(hours=24) and timedelta(hours=24), not "
      ++ spanLiteral minutes ++ "."

/-! ### Days -/

/-- Whether the year has a day more: every fourth one, but of the full centuries only every fourth
one. -/
def isLeap (year : Nat) : Bool := year % 4 = 0 && (year % 100 ≠ 0 || year % 400 = 0)

/-- How many days a month has. -/
def daysIn (year month : Nat) : Nat :=
  if month = 2 then (if isLeap year then 29 else 28)
  else if month = 4 ∨ month = 6 ∨ month = 9 ∨ month = 11 then 30
  else 31

namespace Date

/-- The date of a year, a month and a day. -/
def make (year month day : Nat) : Except Fault Date :=
  if year = 0 ∨ 9999 < year then .error (.year year)
  else if month = 0 ∨ 12 < month then .error .month
  else if day = 0 ∨ daysIn year month < day then .error .day
  else .ok ⟨year, month, day⟩

/-- The digits of the date. -/
def display (d : Date) : String :=
  padded 4 d.year ++ "-" ++ padded 2 d.month ++ "-" ++ padded 2 d.day

/-- The date in a message. -/
def literal (d : Date) : String := s!"datetime.date({d.year}, {d.month}, {d.day})"

/-- How many days lie before the date, counted from the first day of the year 1. -/
def number (d : Date) : Nat :=
  let before := d.year - 1
  let months := (List.range (d.month - 1)).foldl (fun n m => n + daysIn d.year (m + 1)) 0
  365 * before + before / 4 - before / 100 + before / 400 + months + (d.day - 1)

end Date

/-! ### Moments -/

namespace Offset

/-- The offset of a clock that is off by a number of minutes. -/
def make (minutes : Int) : Except Fault Offset :=
  if minutes.natAbs < minutesOfDay.natAbs then .ok ⟨minutes⟩ else .error (.offset minutes)

/-- The digits of the offset, with its sign. -/
def display (o : Offset) : String :=
  let n := o.minutes.natAbs
  (if o.minutes < 0 then "-" else "+") ++ padded 2 (n / 60) ++ ":" ++ padded 2 (n % 60)

/-- The offset in a message. -/
def literal (o : Offset) : String :=
  if o.minutes = 0 then "datetime.timezone.utc"
  else "datetime.timezone(" ++ spanLiteral o.minutes ++ ")"

end Offset

namespace Moment

/-- The moment of a date at a time of day. -/
def make (date : Date) (hour minute second microsecond : Nat) (offset : Option Offset) :
    Except Fault Moment :=
  if 23 < hour then .error .hour
  else if 59 < minute then .error .minute
  else if 59 < second then .error .second
  else .ok ⟨date, hour, minute, second, microsecond, offset⟩

/-- The digits of the moment; a fraction of a second is shown where there is one. -/
def display (m : Moment) : String :=
  let fraction := if m.microsecond = 0 then "" else "." ++ padded 6 m.microsecond
  let offset := match m.offset with
    | some o => o.display
    | none => ""
  m.date.display ++ " " ++ padded 2 m.hour ++ ":" ++ padded 2 m.minute ++ ":" ++
    padded 2 m.second ++ fraction ++ offset

/-- The moment in a message; seconds are left out where they are zero. -/
def literal (m : Moment) : String :=
  let parts := [m.date.year, m.date.month, m.date.day, m.hour, m.minute] ++
    (if m.second = 0 ∧ m.microsecond = 0 then [] else [m.second]) ++
    (if m.microsecond = 0 then [] else [m.microsecond])
  let offset := match m.offset with
    | some o => ["tzinfo=" ++ o.literal]
    | none => []
  "datetime.datetime(" ++ ", ".intercalate (parts.map toString ++ offset) ++ ")"

/-- Seconds since the start of the year 1 by the clock of the moment. -/
def seconds (m : Moment) : Int :=
  ((m.date.number * 24 + m.hour) * 60 + m.minute) * 60 + m.second

/-- Whether two moments are the same point in time. A clock whose offset is unknown tells the same
time only as another one of that kind. -/
def sameAs (m n : Moment) : Bool :=
  m.microsecond == n.microsecond &&
    match m.offset, n.offset with
    | none, none => m.seconds == n.seconds
    | some o, some p => m.seconds - 60 * o.minutes == n.seconds - 60 * p.minutes
    | _, _ => false

end Moment

end FuzzyInference.Calendar
