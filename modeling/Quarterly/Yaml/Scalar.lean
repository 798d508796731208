import Quarterly.Datum.Basic
import Quarterly.Number.Numeral

/-!
# Plain scalars

What a YAML scalar without quotes stands for. The words for null and the truth values, numerals in
several bases, numbers in base sixty, dates and moments are taken for what they write; anything
else is a text. Two marks have a meaning of their own that no datum carries, and cannot stand as
scalars at all.
-/

namespace Quarterly.Yaml

/-- The words for null. -/
def nullWords : List String := ["", "~", "null", "Null", "NULL"]

/-- The words for true. -/
def trueWords : List String :=
  ["yes", "Yes", "YES", "true", "True", "TRUE", "on", "On", "ON"]

/-- The words for false. -/
def falseWords : List String :=
  ["no", "No", "NO", "false", "False", "FALSE", "off", "Off", "OFF"]

/-- The marks that cannot stand as scalars. -/
def reservedWords : List String := ["=", "<<"]

/-- Whether a character can stand in a numeral behind its first digit. -/
def isDigitOrLine (c : Char) : Bool := c.isDigit || c == '_'

/-- The value of a digit in a base up to sixteen. -/
def digitValue (c : Char) : Nat :=
  if c.isDigit then c.toNat - 48 else c.toLower.toNat - 87

/-- The number that digits write in a base; underscores do not count. -/
def numberIn (base : Nat) (digits : List Char) : Nat :=
  (digits.filter (· != '_')).foldl (fun n c => base * n + digitValue c) 0

/-- Whether a text is a row of characters of a kind, at least one. -/
def isRow (kind : Char → Bool) (cs : List Char) : Bool := !cs.isEmpty && cs.all kind

/-- The parts of a text between colons. -/
def colonParts (cs : List Char) : List (List Char) := cs.splitOn ':'

/-- A place of a number in base sixty: one digit, or two of which the first is below six. -/
def isSixtieth : List Char → Bool
  | [a] => a.isDigit
  | [a, b] => '0' ≤ a && a ≤ '5' && b.isDigit
  | _ => false

/-- The number that places in base sixty write, the first place the highest. -/
def inSixties (places : List (List Char)) : Nat :=
  places.foldl (fun n digits => 60 * n + numberIn 10 digits) 0

/-- A whole number without its sign: in base two, eight, sixteen, ten or sixty. -/
def natural? (cs : List Char) : Option Nat :=
  match cs with
  | ['0'] => some 0
  | '0' :: 'b' :: digits =>
    if isRow (fun c => c == '0' || c == '1' || c == '_') digits then some (numberIn 2 digits)
    else none
  | '0' :: 'x' :: digits =>
    if isRow (fun c => isDigitOrLine c || ('a' ≤ c && c ≤ 'f') || ('A' ≤ c && c ≤ 'F')) digits then
      some (numberIn 16 digits)
    else none
  | '0' :: digits =>
    if isRow (fun c => ('0' ≤ c && c ≤ '7') || c == '_') digits then some (numberIn 8 digits)
    else none
  | c :: _ =>
    if !c.isDigit then none
    else match colonParts cs with
      | [digits] => if digits.all isDigitOrLine then some (numberIn 10 digits) else none
      | first :: places =>
        if first.all isDigitOrLine && places.all isSixtieth then some (inSixties (first :: places))
        else none
      | [] => none
  | [] => none

/-- An exponent: a mark, a sign and digits. The sign cannot be left out. -/
def isExponent : List Char → Bool
  | mark :: sign :: digits =>
    (mark == 'e' || mark == 'E') && (sign == '-' || sign == '+') && isRow Char.isDigit digits
  | _ => false

/-- What stands behind the point of a number: digits, and an exponent if there is one. -/
def isFraction (cs : List Char) : Bool :=
  let rest := cs.dropWhile isDigitOrLine
  rest.isEmpty || isExponent rest

/-- The double that digits with underscores among them write. -/
def digitsDouble? (cs : List Char) : Option Float := wholeFloat? (cs.filter (· != '_'))

/-- The double in base sixty, the last place with a fraction. -/
def sixtiesDouble? (places : List (List Char)) (fraction : List Char) : Option Float :=
  (digitsDouble? (places.getLastD [] ++ '.' :: fraction)).map fun last =>
    Binary64.ofInt (60 * inSixties places.dropLast) + last

/-- Infinity, or a number with digits in front of its point, in base ten or sixty; without its
sign. -/
def fractional? (cs : List Char) : Option Float :=
  let whole := cs.takeWhile (· != '.')
  match whole, cs.drop whole.length with
  | [], '.' :: word =>
    if ["inf", "Inf", "INF"].contains (String.ofList word) then some (1 / 0) else none
  | c :: _, '.' :: fraction =>
    if !c.isDigit then none
    else match colonParts whole with
      | [digits] =>
        if digits.all isDigitOrLine && isFraction fraction then digitsDouble? cs else none
      | first :: places =>
        if first.all isDigitOrLine && places.all isSixtieth && fraction.all isDigitOrLine then
          sixtiesDouble? (first :: places) fraction
        else none
      | [] => none
  | _, _ => none

/-- A number that starts with its point. It takes no sign. -/
def pointFirst? : List Char → Option Float
  | '.' :: c :: rest =>
    if c.isDigit && isFraction (c :: rest) then digitsDouble? ('.' :: c :: rest) else none
  | _ => none

/-- A text with a sign in front of it, and the reading of what follows the sign. -/
def signed? {α : Type} (read : List Char → Option α) (negate : α → α) : List Char → Option α
  | '-' :: rest => (read rest).map negate
  | '+' :: rest => read rest
  | cs => read cs

/-- Between the least and the greatest number of digits, and what follows them. -/
def digitsUpTo? (least most : Nat) (cs : List Char) : Option (Nat × List Char) :=
  let digits := (cs.takeWhile Char.isDigit).take most
  if digits.length < least then none else some (Text.decimalNumber digits, cs.drop digits.length)

/-- What follows a character that has to come next. -/
def after? (c : Char) : List Char → Option (List Char)
  | d :: rest => if d = c then some rest else none
  | [] => none

def isSpaceOrTab (c : Char) : Bool := c == ' ' || c == '\t'

/-- The distance to universal time that ends a moment, in seconds. -/
def zone? (cs : List Char) : Option (Option Int) :=
  match cs.dropWhile isSpaceOrTab with
  | [] => if cs.isEmpty then some none else none
  | ['Z'] => some (some 0)
  | sign :: rest => do
    guard (sign == '-' || sign == '+')
    let (hours, rest) ← digitsUpTo? 1 2 rest
    let (minutes, rest) ← match rest with
      | ':' :: rest => digitsUpTo? 2 2 rest
      | rest => some (0, rest)
    guard rest.isEmpty
    let seconds : Int := hours * 3600 + minutes * 60
    return some (if sign = '-' then -seconds else seconds)

/-- A time of day with a zone behind it. -/
structure Clock where
  hour : Nat
  minute : Nat
  second : Nat
  microsecond : Nat
  zone : Option Int
  deriving Repr, DecidableEq

/-- The time of day and the zone that end a moment. -/
def clock? (cs : List Char) : Option Clock := do
  let (hour, rest) ← digitsUpTo? 1 2 cs
  let (minute, rest) ← digitsUpTo? 2 2 (← after? ':' rest)
  let (second, rest) ← digitsUpTo? 2 2 (← after? ':' rest)
  let (fraction, rest) := match rest with
    | '.' :: rest => (rest.takeWhile Char.isDigit, rest.dropWhile Char.isDigit)
    | rest => ([], rest)
  let kept := fraction.take 6
  let microsecond := Text.decimalNumber kept * Nat.pow 10 (6 - kept.length)
  return ⟨hour, minute, second, microsecond, ← zone? rest⟩

/-- A date of ten characters, or a date and a time, in numbers that the calendar and the clock need
not have. -/
def calendarNumbers? (cs : List Char) : Option (Date × Option Clock) := do
  let (year, rest) ← digitsUpTo? 4 4 cs
  let (month, rest) ← digitsUpTo? 1 2 (← after? '-' rest)
  let (day, rest) ← digitsUpTo? 1 2 (← after? '-' rest)
  let date : Date := ⟨year, month, day⟩
  match rest with
  | [] => if cs.length = 10 then some (date, none) else none
  | c :: rest =>
    let start ← if c = 'T' ∨ c = 't' then some rest
      else if isSpaceOrTab c then some (rest.dropWhile isSpaceOrTab) else none
    return (date, some (← clock? start))

/-- The date or moment that numbers give, if the calendar and the clock have it. -/
def ofNumbers? : Date × Option Clock → Option Datum
  | (date, none) => if date.isValid then some (.date date) else none
  | (date, some c) =>
    if date.isValid && c.hour < 24 && c.minute < 60 && c.second < 60 then
      some (.moment ⟨date, c.hour, c.minute, c.second, c.microsecond, c.zone⟩)
    else none

/-- What a scalar without quotes is read as. -/
inductive Reading where
  | text
  | datum (d : Datum)
  /-- The scalar has a form that is kept for something else, or writes a date that does not
  exist. -/
  | nothing

/-- How a scalar without quotes is read. -/
def reading (s : String) : Reading :=
  let cs := s.toList
  if nullWords.contains s then .datum .null
  else if trueWords.contains s then .datum (.bool true)
  else if falseWords.contains s then .datum (.bool false)
  else if [".nan", ".NaN", ".NAN"].contains s then .datum (.double (0 / 0))
  else if reservedWords.contains s then .nothing
  else match signed? (fun cs => (natural? cs).map Int.ofNat) (-·) cs with
    | some i => .datum (.int i)
    | none =>
      match (signed? fractional? (-·) cs).or (pointFirst? cs) with
      | some x => .datum (.double x)
      | none =>
        match calendarNumbers? cs with
        | some numbers => ((ofNumbers? numbers).map Reading.datum).getD .nothing
        | none => .text

/-- Whether a scalar without quotes is a text. -/
def isTextScalar (s : String) : Bool :=
  match reading s with
  | .text => true
  | _ => false

/-- What a scalar without quotes stands for, if it can stand as a scalar. -/
def scalar? (s : String) : Option Datum :=
  match reading s with
  | .text => some (.text s)
  | .datum d => some d
  | .nothing => none

end Quarterly.Yaml
