import Quarterly.Number.Written

/-!
# Numbers

A number is an unbounded integer or a double, and stays what it is: sums, differences and products
of integers are integers, everything that meets a double becomes one, and a quotient is always a
double. Order and equality are exact, also between an integer and a double. Only where an integer
has to become a double can an operation fail: past the largest double there is nothing to round to.
-/

namespace Quarterly

/-- An unbounded integer or a double. -/
inductive Number where
  | int (i : Int)
  | double (x : Float)

/-- Why an operation on numbers has no result. -/
inductive NumericFault where
  /-- An integer beyond the largest double had to become a double. -/
  | integerTooLarge
  /-- The quotient of two integers lies beyond the largest double. -/
  | quotientTooLarge
  /-- An infinite double has no integer part. -/
  | infiniteToInteger
  /-- NaN has no integer part. -/
  | nanToInteger
  /-- Nothing can be divided by zero. -/
  | zeroDivisor
  deriving Repr, DecidableEq

namespace NumericFault

/-- The wording of a fault. -/
def message : NumericFault → String
  | integerTooLarge => "int too large to convert to float"
  | quotientTooLarge => "integer division result too large for a float"
  | infiniteToInteger => "cannot convert float infinity to integer"
  | nanToInteger => "cannot convert float NaN to integer"
  | zeroDivisor => "division by zero"

end NumericFault

/-- How two rationals compare. -/
def compareRat (p q : Rat) : Ordering := if p < q then .lt else if q < p then .gt else .eq

/-- How an integer compares with a double, by the exact value of the double. NaN stands in no
relation to any number. -/
def compareIntDouble (i : Int) (x : Float) : Option Ordering :=
  match Binary64.ofFloat x with
  | .nan => none
  | .infinite negative => some (if negative then .gt else .lt)
  | b@(.finite ..) => b.toRat?.map (compareRat i)

namespace Number

/-- The double nearest to a number. -/
def toDouble : Number → Except NumericFault Float
  | int i =>
    let x := Binary64.ofInt i
    if x.isInf then throw .integerTooLarge else pure x
  | double x => pure x

/-- How two numbers compare by their exact values; NaN compares with nothing. -/
def order : Number → Number → Option Ordering
  | int i, int j => some (compare i j)
  | int i, double y => compareIntDouble i y
  | double x, int j => (compareIntDouble j x).map Ordering.swap
  | double x, double y =>
    if x < y then some .lt else if y < x then some .gt else if x == y then some .eq else none

/-- Exact equality; NaN is equal to nothing. -/
def equal (a b : Number) : Bool := order a b == some .eq

/-- Exact strict order. -/
def less (a b : Number) : Bool := order a b == some .lt

/-- Exact order. -/
def atMost (a b : Number) : Bool := less a b || equal a b

/-- Apply an operation on integers to two integers, and its counterpart on doubles otherwise. -/
def lift (onInts : Int → Int → Int) (onDoubles : Float → Float → Float) :
    Number → Number → Except NumericFault Number
  | int i, int j => pure (int (onInts i j))
  | a, b => do
    let x ← a.toDouble
    let y ← b.toDouble
    pure (double (onDoubles x y))

def add : Number → Number → Except NumericFault Number := lift (· + ·) (· + ·)

def sub : Number → Number → Except NumericFault Number := lift (· - ·) (· - ·)

def mul : Number → Number → Except NumericFault Number := lift (· * ·) (· * ·)

/-- The double nearest to a quotient of integers. -/
def divideInts (i j : Int) : Except NumericFault Float :=
  if j = 0 then throw .zeroDivisor
  else
    let x := Binary64.nearest (decide (i < 0) != decide (j < 0)) i.natAbs j.natAbs
    if x.isInf then throw .quotientTooLarge else pure x

/-- The quotient, a double. Two integers are divided exactly and rounded once. -/
def div : Number → Number → Except NumericFault Float
  | int i, int j => divideInts i j
  | a, b => do
    let x ← a.toDouble
    let y ← b.toDouble
    if y == 0 then throw .zeroDivisor else pure (x / y)

def neg : Number → Number
  | int i => int (-i)
  | double x => double (-x)

def abs : Number → Number
  | int i => int i.natAbs
  | double x => double x.abs

/-- Whether a number is NaN. An integer is asked as a double. -/
def isNaN (a : Number) : Except NumericFault Bool := return (← a.toDouble).isNaN

/-- Whether a number is finite. An integer is asked as a double. -/
def isFinite (a : Number) : Except NumericFault Bool := return (← a.toDouble).isFinite

end Number

/-- The greatest integer that is at most a double. -/
def floorDouble (x : Float) : Except NumericFault Int :=
  match Binary64.ofFloat x with
  | .nan => throw .nanToInteger
  | .infinite _ => throw .infiniteToInteger
  | b@(.finite ..) => pure ((b.toRat?.getD 0).floor)

/-- The least integer that is at least a double. -/
def ceilDouble (x : Float) : Except NumericFault Int :=
  match Binary64.ofFloat x with
  | .nan => throw .nanToInteger
  | .infinite _ => throw .infiniteToInteger
  | b@(.finite ..) => pure ((b.toRat?.getD 0).ceil)

/-- A double without its fraction. -/
def truncateDouble (x : Float) : Except NumericFault Int :=
  if x < 0 then ceilDouble x else floorDouble x

/-- The integer that a double is equal to, if there is one. -/
def wholeValue? (x : Float) : Option Int :=
  match exactValue? x with
  | some q => if q.den = 1 then some q.num else none
  | none => none

namespace Number

/-- The greatest integer that is at most a number. -/
def floor : Number → Except NumericFault Int
  | int i => pure i
  | double x => floorDouble x

/-- The nearest integer, halves towards positive infinity. -/
def roundHalfUp (a : Number) : Except NumericFault Int := do
  (← a.add (double 0.5)).floor

/-- A double as text: an integral double of moderate size is written like the integer, all
others with the shortest digits that read back. -/
def doubleText (x : Float) : String :=
  if x.isNaN then "NaN"
  else if x.isInf then (if x < 0 then "-Infinity" else "Infinity")
  else match wholeValue? x with
    | some i => if i.natAbs < Nat.pow 10 21 then toString i else DoubleLayout.plain.write x
    | none => DoubleLayout.plain.write x

/-- A number as text. -/
def text : Number → String
  | int i => toString i
  | double x => doubleText x

end Number

end Quarterly
