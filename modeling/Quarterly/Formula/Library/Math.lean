import Quarterly.Formula.Library.Basic

/-!
# Mathematical functions

Aggregates look at the numbers among their arguments. Functions of one number answer null for
anything else, and wherever the mathematics leaves them undefined.
-/

namespace Quarterly.Formula.Library

def minimum (args : List Value) : Except Fault Answer :=
  return ((Number.least? (← numbersOf args)).map Answer.number).getD .null

def maximum (args : List Value) : Except Fault Answer :=
  return ((Number.greatest? (← numbersOf args)).map Answer.number).getD .null

def absolute (args : List Value) : Except Fault Answer := do
  checkArity "ABS" (.exactly 1) args.length
  return match args.headD .null with
    | .number n => .number n.abs
    | _ => .null

def sum (args : List Value) : Except Fault Answer := do
  finiteOrNull (← Number.sum (← numbersOf args))

def average (args : List Value) : Except Fault Answer := do
  match ← numbersOf args with
  | [] => pure .null
  | ns => finiteOrNull (.double (← (← Number.sum ns).div (.int ns.length)))

/-- How many arguments are numbers or texts. -/
def count (args : List Value) : Except Fault Answer :=
  return .int (args.countP fun
    | .number _ => true
    | .text _ => true
    | _ => false)

/-- Round a double at a power of ten: scale, round to an integer, scale back. -/
def roundScaled (round : Float → Except NumericFault Float) (value digits : Number) :
    Except NumericFault Answer := do
  match ← Number.power? (.int 10) digits with
  | none => pure .null
  | some factor =>
    match ← value.mul (.double factor) with
    | .double scaled => return .double (← (Number.double (← round scaled)).div (.double factor))
    | .int _ => pure .null

/-- A rounding function of a number and a number of digits. -/
def rounding (name : String) (round : Float → Except NumericFault Float) (args : List Value) :
    Except Fault Answer := do
  checkArity name (.exactly 2) args.length
  return match args with
    | [.number value, .number digits] => nullOnFault (roundScaled round value digits)
    | _ => .null

/-- Halves away from zero. -/
def round : List Value → Except Fault Answer := rounding "ROUND" Number.roundHalfAway

def roundUp : List Value → Except Fault Answer :=
  rounding "ROUNDUP" fun x => return Binary64.ofInt (← ceilDouble x)

def roundDown : List Value → Except Fault Answer :=
  rounding "ROUNDDOWN" fun x => return Binary64.ofInt (← floorDouble x)

def squareRoot (args : List Value) : Except Fault Answer := do
  checkArity "SQRT" (.exactly 1) args.length
  match args.headD .null with
  | .number n => if n.less (.int 0) then pure .null else return .double (← n.sqrt)
  | _ => pure .null

def power (args : List Value) : Except Fault Answer := do
  checkArity "POWER" (.exactly 2) args.length
  return match args with
    | [.number base, .number exponent] =>
      nullOnFault (return ((← Number.power? base exponent).map Answer.double).getD .null)
    | _ => .null

/-- The logarithm to a base, ten by default; null outside its domain. -/
def logarithm (args : List Value) : Except Fault Answer := do
  checkArity "LOG" (.between 1 2) args.length
  match args.headD .null with
  | .number n =>
    let base := match args.getD 1 .null with
      | .number b => b
      | _ => .int 10
    if n.atMost (.int 0) || base.atMost (.int 0) || base.equal (.int 1) then pure .null
    else return .double (← (Number.double n.log).div (.double base.log))
  | _ => pure .null

/-- The positive second argument, or one. -/
def significance (args : List Value) : Number :=
  match args.getD 1 .null with
  | .number s => if Number.less (.int 0) s then s else .int 1
  | _ => .int 1

/-- The multiple of the significance that a rounding of the quotient selects. -/
def multiple (name : String) (round : Float → Except NumericFault Int) (args : List Value) :
    Except Fault Answer := do
  checkArity name (.between 1 2) args.length
  return match args.headD .null with
    | .number n => nullOnFault do
      let unit := significance args
      return .number (← (Number.int (← round (← n.div unit))).mul unit)
    | _ => .null

def ceiling : List Value → Except Fault Answer := multiple "CEILING" ceilDouble

def floor : List Value → Except Fault Answer := multiple "FLOOR" floorDouble

end Quarterly.Formula.Library
