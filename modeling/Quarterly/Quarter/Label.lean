import Quarterly.Calendar.Moment
import Quarterly.Text.Blank

/-!
# Quarter labels

A label names a quarter by a date in one of the usual notations: a month and a year, a full date
in words or in numbers with or without a time of day, a year with a quarter, or a year alone. What
is left out of a date counts as its first. Labels in no such notation, and those that name a day
the calendar does not have, have no date.
-/

namespace Quarterly.Quarter

/-- The English month names. -/
def monthNames : List String := [
  "january", "february", "march", "april", "may", "june", "july", "august", "september",
  "october", "november", "december"]

/-- The number of a month by its name, written out or shortened to three letters, in any case. -/
def monthNumber? (word : List Char) : Option Nat :=
  let small := String.ofList (word.map Char.toLower)
  if small == "sept" then some 9
  else (monthNames.findIdx? fun name =>
    name == small || String.ofList (name.toList.take 3) == small).map (· + 1)

/-- Between `least` and `most` ASCII digits as a number. -/
def number? (least most : Nat) (cs : List Char) : Option (Nat × List Char) :=
  let digits := cs.takeWhile Char.isDigit
  if least ≤ digits.length ∧ digits.length ≤ most then
    some (digits.foldl (fun n c => 10 * n + (c.toNat - 48)) 0, cs.dropWhile Char.isDigit)
  else none

/-- A month name. -/
def month? (cs : List Char) : Option (Nat × List Char) := do
  let month ← monthNumber? (cs.takeWhile Char.isAlpha)
  return (month, cs.dropWhile Char.isAlpha)

/-- The character `c`. -/
def mark? (c : Char) : List Char → Option (List Char)
  | d :: rest => if c = d then some rest else none
  | [] => none

/-- What may stand between the parts of a date in words. -/
def isSeparator (c : Char) : Bool := Text.isBlank c || ['-', '/', ',', '.'].contains c

/-- A year at the end of a label, in three or four digits. -/
def lastYear? (cs : List Char) : Option Nat :=
  match number? 3 4 (cs.dropWhile isSeparator) with
  | some (year, []) => some year
  | _ => none

/-- A month, perhaps a day, and a year. -/
def monthFirst? (cs : List Char) : Option Date := do
  let (month, rest) ← month? cs
  match lastYear? rest with
  | some year => Date.of? year month 1
  | none => do
    let (day, rest) ← number? 1 2 (rest.dropWhile isSeparator)
    guard (rest.head?.any isSeparator)
    Date.of? (← lastYear? rest) month day

/-- A day, a month name and a year. -/
def dayFirst? (cs : List Char) : Option Date := do
  let (day, rest) ← number? 1 2 cs
  let (month, rest) ← month? (rest.dropWhile isSeparator)
  Date.of? (← lastYear? rest) month day

/-- A year with a quarter. -/
def yearQuarter? (cs : List Char) : Option Date := do
  let (year, rest) ← number? 4 4 cs
  let rest := (mark? '-' rest).getD rest
  let rest ← (mark? 'Q' rest).or (mark? 'q' rest)
  let (quarter, rest) ← number? 1 1 rest
  guard (rest.isEmpty && 1 ≤ quarter && quarter ≤ 4)
  Date.of? year (3 * quarter - 2) 1

/-- A year, perhaps with a month. -/
def yearMonth? (cs : List Char) : Option Date := do
  let (year, rest) ← number? 4 4 cs
  if rest.isEmpty then Date.of? year 1 1
  else do
    let (month, rest) ← number? 1 2 (← mark? '-' rest)
    guard rest.isEmpty
    Date.of? year month 1

/-- A date in eight digits. -/
def compact? (cs : List Char) : Option Date := do
  let (n, rest) ← number? 8 8 cs
  guard rest.isEmpty
  Date.of? (n / 10000) (n / 100 % 100) (n % 100)

/-- A date in numbers from the year down, and what follows it. -/
def numericDate? (cs : List Char) : Option (Date × List Char) := do
  let (year, rest) ← number? 4 4 cs
  let separator ← rest.head?
  guard (separator = '-' || separator = '/')
  let (month, rest) ← number? 1 2 (rest.drop 1)
  let (day, rest) ← number? 1 2 (← mark? separator rest)
  return (← Date.of? year month day, rest)

/-- The distance to universal time at the end of a label. -/
def zone? : List Char → Option (Option Int)
  | [] => some none
  | ['Z'] => some (some 0)
  | sign :: rest => do
    guard (sign = '+' || sign = '-')
    let (hours, rest) ← number? 2 2 rest
    let (minutes, rest) ← number? 2 2 ((mark? ':' rest).getD rest)
    guard (rest.isEmpty && hours < 24 && minutes < 60)
    let seconds : Int := (hours * 60 + minutes) * 60
    return some (if sign = '-' then -seconds else seconds)

/-- The microseconds behind the seconds, in up to six digits. -/
def fraction? (cs : List Char) : Option (Nat × List Char) :=
  match cs with
  | '.' :: rest => do
    let digits := rest.takeWhile Char.isDigit
    let (n, rest) ← number? 1 6 rest
    return (n * Nat.pow 10 (6 - digits.length), rest)
  | _ => some (0, cs)

/-- A time of day behind a date. -/
def timed? (date : Date) (cs : List Char) : Option Moment := do
  let (hour, rest) ← number? 1 2 cs
  let (minute, rest) ← number? 2 2 (← mark? ':' rest)
  let (second, rest) ← match rest with
    | ':' :: rest => number? 2 2 rest
    | _ => some (0, rest)
  let (microsecond, rest) ← fraction? rest
  guard (hour < 24 && minute < 60 && second < 60)
  return ⟨date, hour, minute, second, microsecond, ← zone? rest⟩

/-- A date in numbers, perhaps with a time of day. -/
def numeric? (cs : List Char) : Option Moment := do
  let (date, rest) ← numericDate? cs
  match rest with
  | [] => some { date }
  | c :: rest =>
    if c = 'T' || c = 't' then timed? date rest
    else if Text.isBlank c then timed? date (rest.dropWhile Text.isBlank)
    else none

/-- The date that a label stands for. -/
def parseLabel? (label : String) : Option Moment :=
  let cs := Text.trimChars label.toList
  let day (d : Option Date) : Option Moment := d.map fun date => { date }
  (numeric? cs).or <| (day (monthFirst? cs)).or <| (day (dayFirst? cs)).or <|
    (day (yearQuarter? cs)).or <| (day (yearMonth? cs)).or (day (compact? cs))

end Quarterly.Quarter
