import Quarterly.Number.Binary64
import Quarterly.Text.Digit

/-!
# Numerals in text

A numeral is a sign, digits with at most one point among them, and an exponent. `Numeral.split?`
reads the longest numeral at the start of a text; `Numeral.toFloat` gives the double nearest to
the number that is written. Digits of every script are accepted.
-/

namespace Quarterly

namespace Binary64

/-- The double nearest to `± coefficient · 10 ^ exponent`. Exponents beyond every double are
settled without computing the power. -/
def ofDecimal (negative : Bool) (coefficient : Nat) (exponent : Int) : Float :=
  if coefficient = 0 ∨ exponent < -400 - (coefficient.log2 : Int) then nearest negative 0 1
  else if 400 < exponent then nearest negative (1 <<< 1024) 1
  else if 0 ≤ exponent then nearest negative (coefficient * Nat.pow 10 exponent.toNat) 1
  else nearest negative coefficient (Nat.pow 10 (-exponent).toNat)

end Binary64

/-- A number as it is written. -/
structure Numeral where
  negative : Bool
  whole : List Char
  fraction : List Char
  exponent : Int
  deriving Repr, DecidableEq

namespace Numeral

/-- The double nearest to the number that is written. -/
def toFloat (n : Numeral) : Float :=
  Binary64.ofDecimal n.negative (Text.decimalNumber (n.whole ++ n.fraction))
    (n.exponent - n.fraction.length)

/-- A sign at the start of a text: whether it is a minus, and what follows it. -/
def splitSign : List Char → Bool × List Char
  | '-' :: rest => (true, rest)
  | '+' :: rest => (false, rest)
  | cs => (false, cs)

/-- An exponent at the start of a text. An `e` without digits behind it belongs to what
follows the numeral. -/
def splitExponent (cs : List Char) : Int × List Char :=
  match cs with
  | [] => (0, [])
  | mark :: rest =>
    if mark = 'e' ∨ mark = 'E' then
      let (negative, afterSign) := splitSign rest
      match afterSign.takeWhile Text.isDecimal with
      | [] => (0, cs)
      | ds =>
        let value : Int := Text.decimalNumber ds
        (if negative then -value else value, afterSign.dropWhile Text.isDecimal)
    else (0, cs)

/-- The longest numeral at the start of a text and what follows it. Digits are needed before the
point or behind it. -/
def split? (cs : List Char) : Option (Numeral × List Char) :=
  let (negative, unsigned) := splitSign cs
  let whole := unsigned.takeWhile Text.isDecimal
  let rest := unsigned.dropWhile Text.isDecimal
  let (fraction, rest) := match rest with
    | '.' :: after => (after.takeWhile Text.isDecimal, after.dropWhile Text.isDecimal)
    | _ => ([], rest)
  if whole.isEmpty && fraction.isEmpty then none
  else
    let (exponent, rest) := splitExponent rest
    some (⟨negative, whole, fraction, exponent⟩, rest)

end Numeral

/-- The double written at the start of a text, if a number is written there. -/
def leadingFloat? (cs : List Char) : Option Float :=
  (Numeral.split? cs).map fun (n, _) => n.toFloat

/-- The double that a whole text writes, without blanks around it. -/
def wholeFloat? (cs : List Char) : Option Float :=
  match Numeral.split? cs with
  | some (n, []) => some n.toFloat
  | _ => none

end Quarterly
