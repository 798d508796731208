import Quarterly.Number.Shortest

/-!
# How doubles are written

The digits of a double are the shortest ones that read back. A layout decides the rest: from
which magnitude on the exponent form is used, how wide the exponent is, and what stands for the
values that have no digits.
-/

namespace Quarterly

/-- The decisions that turn digits into text. -/
structure DoubleLayout where
  /-- Positional from `10 ^ least` on. -/
  least : Int
  /-- Positional below `10 ^ bound`. -/
  bound : Int
  /-- The exponent has at least this many digits, behind its sign. -/
  exponentWidth : Nat
  nan : String
  infinity : String
  deriving Repr, DecidableEq

namespace DoubleLayout

/-- Plain text: positional from `0.0001` up to sixteen digits, always with a fraction. -/
def plain : DoubleLayout := ⟨-4, 16, 2, "nan", "inf"⟩

/-- Digits with a point before or behind them filled up with zeros. -/
def positional (digits : List Char) (point : Int) : List Char :=
  if point ≤ 0 then '0' :: '.' :: List.replicate (-point).toNat '0' ++ digits
  else
    let whole := point.toNat
    if digits.length ≤ whole then
      digits ++ List.replicate (whole - digits.length) '0' ++ ['.', '0']
    else digits.take whole ++ '.' :: digits.drop whole

/-- One digit, the fraction if there is one, and the signed exponent. -/
def scientific (layout : DoubleLayout) (digits : List Char) (power : Int) : List Char :=
  let fraction := match digits.drop 1 with
    | [] => []
    | rest => '.' :: rest
  let exponent := Nat.toDigits 10 power.natAbs
  let padding := List.replicate (layout.exponentWidth - exponent.length) '0'
  digits.take 1 ++ fraction ++ 'e' :: (if power < 0 then '-' else '+') :: padding ++ exponent

/-- The text of a decimal without a sign. -/
def writeDecimal (layout : DoubleLayout) (d : Decimal) : List Char :=
  let power := d.point - 1
  if layout.least ≤ power ∧ power < layout.bound then positional d.digits d.point
  else layout.scientific d.digits power

/-- The text of a double. The sign of zero is written, the sign of a NaN is not. -/
def write (layout : DoubleLayout) (x : Float) : String :=
  match Binary64.ofFloat x with
  | .nan => layout.nan
  | .infinite negative => (if negative then "-" else "") ++ layout.infinity
  | .finite negative mantissa exponent =>
    let body := if mantissa = 0 then ['0', '.', '0']
      else layout.writeDecimal (shortestDecimal mantissa exponent)
    (if negative then "-" else "") ++ String.ofList body

end DoubleLayout

end Quarterly
