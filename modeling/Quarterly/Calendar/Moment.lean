/-!
# Dates and moments

Dates of the Gregorian calendar in the years 1 to 9999, and moments: a date with a time of day
and, if it is known, the distance to universal time. Moments are ordered on a line of microseconds;
one with a known distance is first taken to universal time.
-/

namespace Quarterly

/-- A day. -/
structure Date where
  year : Nat
  month : Nat
  day : Nat
  deriving Repr, DecidableEq

namespace Date

def isLeap (year : Nat) : Bool := year % 4 == 0 && (year % 100 != 0 || year % 400 == 0)

def daysInMonth (year month : Nat) : Nat :=
  if month = 2 then (if isLeap year then 29 else 28)
  else if [4, 6, 9, 11].contains month then 30
  else 31

/-- Whether the calendar has the day. -/
def isValid (d : Date) : Bool :=
  1 ≤ d.year && d.year ≤ 9999 && 1 ≤ d.month && d.month ≤ 12 && 1 ≤ d.day &&
    d.day ≤ daysInMonth d.year d.month

/-- The day with the given numbers, if the calendar has it. -/
def of? (year month day : Nat) : Option Date :=
  let d : Date := ⟨year, month, day⟩
  if d.isValid then some d else none

/-- The days of a year before the first of a month. -/
def daysBeforeMonth (year month : Nat) : Nat :=
  (List.range (month - 1)).foldl (fun days m => days + daysInMonth year (m + 1)) 0

/-- The days before a year, counted from the start of the year 1. -/
def daysBeforeYear (year : Nat) : Nat :=
  let past := year - 1
  past * 365 + past / 4 - past / 100 + past / 400

/-- How many days lie before a day, counted from the start of the year 1. -/
def ordinal (d : Date) : Nat :=
  daysBeforeYear d.year + daysBeforeMonth d.year d.month + (d.day - 1)

/-- The month and day of a day of a year, counted from zero. -/
def ofDayOfYear (year dayOfYear : Nat) : Date :=
  let month := ((List.range 12).filter fun m => daysBeforeMonth year (m + 1) ≤ dayOfYear).length
  ⟨year, month, dayOfYear - daysBeforeMonth year month + 1⟩

/-- The day with a given number of days before it. The average length of a year gives its year up
to one. -/
def ofOrdinal (n : Nat) : Date :=
  let guess := n * 400 / 146097 + 1
  let year := if n < daysBeforeYear guess then guess - 1
    else if daysBeforeYear (guess + 1) ≤ n then guess + 1 else guess
  ofDayOfYear year (n - daysBeforeYear year)

end Date

/-- A day and a time of day. -/
structure Moment where
  date : Date
  hour : Nat := 0
  minute : Nat := 0
  second : Nat := 0
  microsecond : Nat := 0
  /-- The seconds by which the clock is ahead of universal time. -/
  offset : Option Int := none
  deriving Repr, DecidableEq

namespace Moment

/-- The place of a moment on the line of microseconds. -/
def position (m : Moment) : Int :=
  (((m.date.ordinal : Int) * 24 + m.hour) * 60 + m.minute) * 60000000 + m.second * 1000000 +
    m.microsecond - m.offset.getD 0 * 1000000

/-- Whether the distance to universal time is known. -/
def isAware (m : Moment) : Bool := m.offset.isSome

/-- The start of 1970 in universal time, in seconds from the start of the year 1. -/
def epoch : Int := (Date.ordinal ⟨1970, 1, 1⟩ : Int) * 86400

/-- The moment a number of seconds and microseconds after the start of 1970, in universal time, if
it lies in the years 1 to 9999. -/
def ofEpoch? (seconds : Int) (microsecond : Nat) : Option Moment :=
  let total := epoch + seconds
  if total < 0 then none
  else
    let date := Date.ofOrdinal (total.toNat / 86400)
    let rest := total.toNat % 86400
    if date.isValid then
      some ⟨date, rest / 3600, rest / 60 % 60, rest % 60, microsecond, some 0⟩
    else none

/-- A number with leading zeros up to a width. -/
def padded (width n : Nat) : String :=
  let digits := toString n
  String.ofList (List.replicate (width - digits.length) '0') ++ digits

/-- The distance to universal time as text. -/
def offsetText (seconds : Int) : String :=
  let n := seconds.natAbs
  (if seconds < 0 then "-" else "+") ++ padded 2 (n / 3600) ++ ":" ++ padded 2 (n / 60 % 60) ++
    (if n % 60 = 0 then "" else ":" ++ padded 2 (n % 60))

def dateText (d : Date) : String :=
  padded 4 d.year ++ "-" ++ padded 2 d.month ++ "-" ++ padded 2 d.day

/-- The international form: date, time, microseconds if there are any, and the distance to
universal time if it is known. -/
def text (m : Moment) : String :=
  dateText m.date ++ "T" ++ padded 2 m.hour ++ ":" ++ padded 2 m.minute ++ ":" ++
    padded 2 m.second ++ (if m.microsecond = 0 then "" else "." ++ padded 6 m.microsecond) ++
    (m.offset.map offsetText).getD ""

end Moment

end Quarterly
