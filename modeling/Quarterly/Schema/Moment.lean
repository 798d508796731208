import Quarterly.Schema.Check

/-!
# Checking moments

A moment is written as a date, or as a date and a time with an optional distance to universal
time, or as a number of seconds since the start of 1970. A text that is no moment is judged as a
date: the reason tells where it stops being one.
-/

namespace Quarterly.Schema

open Checked

namespace MomentText

/-- A number in exactly two ASCII digits. -/
def pair? : List Char → Option (Nat × List Char)
  | a :: b :: rest =>
    if a.isDigit && b.isDigit then some ((a.toNat - 48) * 10 + (b.toNat - 48), rest) else none
  | _ => none

/-- The date in the first ten characters of a text. -/
def date (cs : List Char) : Except String (Date × List Char) := do
  if cs.length < 10 then throw "input is too short"
  let some (century, rest) := pair? cs | throw "invalid character in year"
  let some (years, rest) := pair? rest | throw "invalid character in year"
  let separator := "invalid date separator, expected `-`"
  let '-' :: rest := rest | throw separator
  let some (month, rest) := pair? rest | throw "invalid character in month"
  let '-' :: rest := rest | throw separator
  let some (day, rest) := pair? rest | throw "invalid character in day"
  let year := century * 100 + years
  if month < 1 ∨ 12 < month then throw "month value is outside expected range of 1-12"
  if day < 1 ∨ Date.daysInMonth year month < day then
    throw "day value is outside expected range"
  return (⟨year, month, day⟩, rest)

/-- The digits of a fraction of a second as microseconds; further digits are dropped. -/
def microseconds (digits : List Char) : Nat :=
  let kept := digits.take 6
  Text.decimalNumber kept * Nat.pow 10 (6 - kept.length)

/-- The distance to universal time that ends a text. -/
def offset? : List Char → Option (Option Int)
  | [] => some none
  | [c] => if c = 'Z' ∨ c = 'z' then some (some 0) else none
  | sign :: rest => do
    let negative ← match sign with
      | '+' => some false
      | '-' => some true
      | '−' => some true
      | _ => none
    let (hours, rest) ← pair? rest
    let (minutes, rest) ← pair? (match rest with
      | ':' :: r => r
      | r => r)
    guard (rest.isEmpty && hours < 24 && minutes < 60)
    let seconds : Int := (hours * 60 + minutes) * 60
    return some (if negative then -seconds else seconds)

/-- A fraction behind the seconds and what follows it. -/
def fraction? (cs : List Char) : Option (Nat × List Char) :=
  match cs with
  | mark :: rest =>
    if mark = '.' ∨ mark = ',' then
      let digits := rest.takeWhile Char.isDigit
      if digits.isEmpty then none else some (microseconds digits, rest.drop digits.length)
    else some (0, cs)
  | [] => some (0, [])

/-- The time behind the separator that follows a date. -/
def time? (date : Date) (cs : List Char) : Option Moment := do
  let (hour, rest) ← pair? cs
  let ':' :: rest := rest | none
  let (minute, rest) ← pair? rest
  let (second, rest) ← match rest with
    | ':' :: r => pair? r
    | r => some (0, r)
  let (microsecond, rest) ← fraction? rest
  guard (hour < 24 && minute < 60 && second < 60)
  return ⟨date, hour, minute, second, microsecond, ← offset? rest⟩

/-- A date and a time. -/
def full? (cs : List Char) : Option Moment :=
  match date cs with
  | .ok (d, separator :: rest) =>
    if ['T', 't', ' ', '_'].contains separator then time? d rest else none
  | _ => none

/-- A date alone. -/
def dateOnly (cs : List Char) : Except String Moment := do
  let (d, rest) ← date cs
  if rest.isEmpty then return { date := d }
  else throw "unexpected extra characters at the end of the input"

end MomentText

namespace Check

/-- Beyond this many a count since the start of 1970 is one of milliseconds. -/
def secondsBound : Nat := 20000000000

/-- The moment a number of seconds or milliseconds after the start of 1970. -/
def ofCount (count : Int) : Checked Moment :=
  let moment := if count.natAbs ≤ secondsBound then Moment.ofEpoch? count 0
    else Moment.ofEpoch? (count / 1000) ((count % 1000).toNat * 1000)
  match moment with
  | some m => pure m
  | none => fail (.datetimeParsing (if count < 0 then
      "dates before 0000 are not supported as unix timestamps"
      else "dates after 9999 are not supported as unix timestamps"))

/-- The moment a number of seconds with a fraction after the start of 1970. -/
def ofDoubleCount (x : Float) : Checked Moment :=
  match exactValue? x with
  | none => fail (.datetimeParsing "second value is outside expected range of 0-59")
  | some q =>
    if q.den = 1 then ofCount q.num
    else
      let total := ((q * 1000000 + 1 / 2 : Rat)).floor
      match Moment.ofEpoch? (total / 1000000) (total % 1000000).toNat with
      | some m => pure m
      | none => fail (.datetimeParsing "dates after 9999 are not supported as unix timestamps")

def moment : Check Moment
  | .moment m => pure m
  | .date d => pure { date := d }
  | .int i => ofCount i
  | .double x => ofDoubleCount x
  | .text s =>
    let cs := s.toList
    match MomentText.full? cs with
    | some m => pure m
    | none =>
      match MomentText.dateOnly cs with
      | .ok m => pure m
      | .error reason =>
        match wholeFloat? cs with
        | some x => ofDoubleCount x
        | none => fail (.datetimeFromDateParsing reason)
  | _ => fail .datetimeType

end Check

end Quarterly.Schema
