import LayeredFix.Number.Basic

/-!
# Dates and times

The days of the Gregorian calendar from the year 1 to the year 9999, times of the day to the microsecond, and
both together, with or without the distance from universal time. `Moment.toText` is the form of ISO 8601
that these are written in: microseconds only when there are some, the distance always as hours and minutes.
-/

namespace LayeredFix

/-- A day. -/
structure Date where
  /-- The year. -/
  year : Nat
  /-- The month, from 1. -/
  month : Nat
  /-- The day of the month, from 1. -/
  day : Nat
  deriving DecidableEq, Repr, Inhabited

/-- A time of the day. -/
structure ClockTime where
  /-- The hour. -/
  hour : Nat
  /-- The minute. -/
  minute : Nat
  /-- The second. -/
  second : Nat
  /-- The microsecond. -/
  micros : Nat
  deriving DecidableEq, Repr, Inhabited

/-- A day, a time, or both; the distance from universal time is in minutes. -/
inductive Moment where
  /-- A day. -/
  | date (d : Date)
  /-- A time. -/
  | time (t : ClockTime)
  /-- A time on a day. -/
  | dateTime (d : Date) (t : ClockTime) (distance : Option Int)
  deriving DecidableEq, Repr, Inhabited

/-- Whether a year has a leap day. -/
def Date.isLeap (year : Nat) : Bool := year % 4 == 0 && (year % 100 != 0 || year % 400 == 0)

/-- The number of days of a month. -/
def Date.daysIn (year month : Nat) : Nat :=
  if month == 2 then (if isLeap year then 29 else 28)
  else if month == 4 || month == 6 || month == 9 || month == 11 then 30
  else 31

/-- Whether the calendar has the day. -/
def Date.isValid (d : Date) : Bool :=
  1 ≤ d.year && d.year ≤ 9999 && 1 ≤ d.month && d.month ≤ 12 && 1 ≤ d.day && d.day ≤ daysIn d.year d.month

namespace Moment

/-- A day as year, month and day. -/
def dateText (d : Date) : Text := Text.padded 4 d.year ++ '-' :: Text.padded 2 d.month ++ '-' :: Text.padded 2 d.day

/-- Hours and minutes. -/
def minutesText (hour minute : Nat) : Text := Text.padded 2 hour ++ ':' :: Text.padded 2 minute

/-- A time as hours, minutes and seconds, with microseconds if there are any. -/
def timeText (t : ClockTime) : Text :=
  minutesText t.hour t.minute ++ ':' :: Text.padded 2 t.second ++
    (if t.micros == 0 then [] else '.' :: Text.padded 6 t.micros)

/-- The distance from universal time. -/
def distanceText (minutes : Int) : Text :=
  (if minutes < 0 then '-' else '+') :: minutesText (minutes.natAbs / 60) (minutes.natAbs % 60)

/-- The text of a moment. -/
def toText : Moment → Text
  | date d => dateText d
  | time t => timeText t
  | dateTime d t distance => dateText d ++ 'T' :: timeText t ++ (distance.map distanceText).getD []

end Moment

end LayeredFix
