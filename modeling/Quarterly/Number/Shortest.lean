import Quarterly.Number.Binary64

/-!
# The shortest decimal that reads back

A positive double `m · 2 ^ e` owns an interval of real numbers: those that round to it. The ends
lie halfway to the neighbouring doubles and belong to the interval exactly when `m` is even. On
the grid of decimals with `n` digits the candidates are the two grid points around the double;
the first `n` with a candidate inside the interval gives the shortest decimal, and of two
candidates the nearer one is taken. Seventeen digits always suffice.

All tests are between naturals: a common denominator is cleared first.
-/

namespace Quarterly

/-- The decimal number `coefficient · 10 ^ exponent`. -/
structure Decimal where
  coefficient : Nat
  exponent : Int
  deriving Repr, DecidableEq

namespace Decimal

/-- The decimal digits of the coefficient. -/
def digits (d : Decimal) : List Char := Nat.toDigits 10 d.coefficient

/-- How many digits stand before the decimal point; zero or less when the number starts with
zeros behind the point. -/
def point (d : Decimal) : Int := d.digits.length + d.exponent

end Decimal

/-- A double together with the ends of the interval that rounds to it, as numerators over one
denominator. -/
structure RoundingInterval where
  low : Nat
  value : Nat
  high : Nat
  denominator : Nat
  /-- Whether the ends themselves round to the double. -/
  closed : Bool
  deriving Repr, DecidableEq

namespace RoundingInterval

/-- The interval of `mantissa · 2 ^ exponent`. Below a power of two the next smaller double is
only half as far away as the next larger one. -/
def ofDouble (mantissa : Nat) (exponent : Int) : RoundingInterval :=
  let narrow := mantissa = Binary64.hiddenBit ∧ -1074 < exponent
  let unit : Nat := if 2 ≤ exponent then 1 <<< (exponent - 2).toNat else 1
  { low := (4 * mantissa - if narrow then 1 else 2) * unit
    value := 4 * mantissa * unit
    high := (4 * mantissa + 2) * unit
    denominator := if 2 ≤ exponent then 1 else 1 <<< (2 - exponent).toNat
    closed := mantissa % 2 = 0 }

/-- Multiply by a power of ten, without leaving the naturals. -/
def scale (i : RoundingInterval) (power : Int) : RoundingInterval :=
  if 0 ≤ power then
    let factor := Nat.pow 10 power.toNat
    { i with low := i.low * factor, value := i.value * factor, high := i.high * factor }
  else { i with denominator := i.denominator * Nat.pow 10 (-power).toNat }

/-- Whether a whole number lies in the interval. -/
def contains (i : RoundingInterval) (n : Nat) : Bool :=
  let scaled := n * i.denominator
  if i.closed then i.low ≤ scaled && scaled ≤ i.high else i.low < scaled && scaled < i.high

/-- The whole number next to the value that lies in the interval, the nearer one if both
neighbours do and the even one if both are equally near. -/
def wholeInside? (i : RoundingInterval) : Option Nat :=
  let below := i.value / i.denominator
  let above := below + 1
  match i.contains below, i.contains above with
  | true, true =>
    let twice := 2 * (i.value % i.denominator)
    if twice < i.denominator then some below
    else if i.denominator < twice then some above
    else if below % 2 = 0 then some below else some above
  | true, false => some below
  | false, true => some above
  | false, false => none

/-- The least `k` with the value below `10 ^ k`. The quotient of the binary logarithms gives it up
to one place. -/
def magnitude (i : RoundingInterval) : Int :=
  let guess : Int := ((i.value.log2 : Int) - (i.denominator.log2 : Int)) * 30103 / 100000
  let fits (k : Int) : Bool :=
    let scaled := i.scale (-k)
    scaled.value < scaled.denominator
  if fits (guess - 1) then guess - 1
  else if fits guess then guess
  else if fits (guess + 1) then guess + 1
  else guess + 2

/-- The decimal with `count` digits that stands for the double, if there is one. The neighbour
above may be the next power of ten, which is written with a single digit. -/
def decimal? (i : RoundingInterval) (count : Nat) : Option Decimal :=
  let exponent := i.magnitude - count
  (i.scale (-exponent)).wholeInside?.map fun n =>
    if n = Nat.pow 10 count then ⟨1, exponent + count⟩ else ⟨n, exponent⟩

end RoundingInterval

/-- The shortest decimal that rounds to `mantissa · 2 ^ exponent`. -/
def shortestDecimal (mantissa : Nat) (exponent : Int) : Decimal :=
  let interval := RoundingInterval.ofDouble mantissa exponent
  (((List.range 17).findSome? fun n => interval.decimal? (n + 1))).getD ⟨mantissa, exponent⟩

end Quarterly
