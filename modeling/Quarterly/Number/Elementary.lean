import Quarterly.Number.Basic

/-!
# Powers, roots and logarithms

Elementary functions of doubles, with the cases told apart in which they have no value. A power of
finite numbers that is not finite is undefined or overflows; infinite and NaN operands go through
by the usual rules. The logarithm of an integer beyond the doubles is that of its leading binary
digits plus a multiple of the logarithm of two.
-/

namespace Quarterly

/-- Whether a double carries a minus sign, zero included. -/
def hasMinus (x : Float) : Bool := x.toBits >>> 63 == 1

/-- A power of doubles, unless it is undefined or overflows. -/
def power? (base exponent : Float) : Option Float :=
  let result := base.pow exponent
  if base.isFinite && exponent.isFinite && !result.isFinite then none else some result

/-- A positive integer as `fraction · 2 ^ exponent` with the fraction at least one half and less
than one. -/
def splitBinary (n : Nat) : Float × Nat :=
  let exponent := n.log2 + 1
  let fraction := Binary64.nearest false n (1 <<< exponent)
  if fraction == 1 then (0.5, exponent + 1) else (fraction, exponent)

namespace Number

/-- The natural logarithm of a positive number. -/
def log : Number → Float
  | .double x => x.log
  | .int i =>
    let x := Binary64.ofInt i
    if x.isInf then
      let (fraction, exponent) := splitBinary i.natAbs
      fraction.log + (2 : Float).log * Binary64.ofInt exponent
    else x.log

/-- The square root. -/
def sqrt (a : Number) : Except NumericFault Float := return (← a.toDouble).sqrt

/-- A power of numbers; none if it is undefined or overflows. -/
def power? (base exponent : Number) : Except NumericFault (Option Float) :=
  return Quarterly.power? (← base.toDouble) (← exponent.toDouble)

/-- The nearest integer, halves away from zero, with the sign of the number kept for zero. -/
def roundHalfAway (x : Float) : Except NumericFault Float := do
  let magnitude := Binary64.ofInt (← floorDouble (x.abs + 0.5))
  return if hasMinus x then -magnitude else magnitude

/-- The sum of some numbers, from the left, starting from the integer zero. -/
def sum (ns : List Number) : Except NumericFault Number := ns.foldlM add (.int 0)

/-- The first number that no later one is below. -/
def least? : List Number → Option Number
  | [] => none
  | n :: ns => some (ns.foldl (fun best m => if m.less best then m else best) n)

/-- The first number that no later one is above. -/
def greatest? : List Number → Option Number
  | [] => none
  | n :: ns => some (ns.foldl (fun best m => if best.less m then m else best) n)

end Number

end Quarterly
