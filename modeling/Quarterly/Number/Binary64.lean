/-!
# Doubles as exact numbers

A finite double is `± mantissa · 2 ^ exponent`. Reading a double into that form is exact, so
everything that asks for an integer part, for an order between a double and an unbounded integer,
or for the digits of a double is computed here over integers and rationals. In the other direction
`nearest` rounds a quotient of naturals to the closest double, ties to the even mantissa; decimal
text, unbounded integers and quotients of integers all become doubles through it.
-/

namespace Quarterly

/-- The exact content of a double. -/
inductive Binary64 where
  | nan
  | infinite (negative : Bool)
  | finite (negative : Bool) (mantissa : Nat) (exponent : Int)
  deriving Repr, DecidableEq

namespace Binary64

/-- The leading bit of a mantissa, which the bit pattern leaves out. -/
def hiddenBit : Nat := 1 <<< 52

/-- Split the bit pattern of a double into sign, exponent field and fraction field. The hidden
leading bit belongs to every exponent field but the least one. -/
def ofFloat (x : Float) : Binary64 :=
  let bits := x.toBits.toNat
  let negative := bits >>> 63 = 1
  let field : Nat := (bits >>> 52) % 2048
  let fraction : Nat := bits % hiddenBit
  if field = 2047 then
    if fraction = 0 then .infinite negative else .nan
  else if field = 0 then .finite negative fraction (-1074)
  else .finite negative (hiddenBit + fraction) ((field : Int) - 1075)

/-- The rational number that a finite double stands for. -/
def toRat? : Binary64 → Option Rat
  | .nan => none
  | .infinite _ => none
  | .finite negative mantissa exponent =>
    let signed : Int := if negative then -(mantissa : Int) else mantissa
    if 0 ≤ exponent then some (mkRat (signed * ↑(1 <<< exponent.toNat : Nat)) 1)
    else some (mkRat signed (1 <<< (-exponent).toNat))

/-- The natural number nearest to `num / den`; a half goes to the even neighbour. -/
def roundHalfEven (num den : Nat) : Nat :=
  let quotient := num / den
  let twice := 2 * (num % den)
  if twice < den then quotient
  else if den < twice then quotient + 1
  else if quotient % 2 = 0 then quotient
  else quotient + 1

/-- `num / den` in units of `2 ^ exponent`, rounded to a natural number. -/
def scaledRound (num den : Nat) (exponent : Int) : Nat :=
  if 0 ≤ exponent then roundHalfEven num (den <<< exponent.toNat)
  else roundHalfEven (num <<< (-exponent).toNat) den

/-- The exponent of the last place of a double of the size of `num / den`: the quotient has
fifty-three binary digits there unless the least exponent is reached first. -/
def lastPlace (num den : Nat) : Int :=
  let guess : Int := (num.log2 : Int) - (den.log2 : Int) - 53
  let isWide :=
    if 0 ≤ guess then den <<< (guess.toNat + 53) ≤ num
    else den <<< 53 ≤ num <<< (-guess).toNat
  max (-1074) (if isWide then guess + 1 else guess)

/-- The double nearest to `± num / den`, ties to the even mantissa, infinite past the largest
finite double. The bit pattern of a double counts its last places from zero, so a mantissa that
rounds up to the next power of two carries into the exponent field by itself. -/
def nearest (negative : Bool) (num den : Nat) : Float :=
  let sign := if negative then 1 <<< 63 else 0
  if num = 0 then Float.ofBits (UInt64.ofNat sign)
  else
    let exponent := lastPlace num den
    let magnitude := (exponent + 1074).toNat * hiddenBit + scaledRound num den exponent
    Float.ofBits (UInt64.ofNat (sign + min magnitude (2047 * hiddenBit)))

/-- The double nearest to an integer. -/
def ofInt (i : Int) : Float := nearest (i < 0) i.natAbs 1

end Binary64

/-- The exact value of a finite double. -/
def exactValue? (x : Float) : Option Rat := (Binary64.ofFloat x).toRat?

end Quarterly
