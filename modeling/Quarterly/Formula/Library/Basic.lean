import Quarterly.Formula.Operator
import Quarterly.Number.Elementary

/-!
# What library functions work with

A library function takes the values of its arguments and answers with a value. Some functions make
an array: their answer is only its items, and whoever called the function gives the array an
identity.
-/

namespace Quarterly.Formula

/-- What a library function answers. -/
inductive Answer where
  /-- One of the arguments, a part of one, or a value without identity. -/
  | value (v : Value)
  /-- The items of a new array. -/
  | newArray (items : List Value)

namespace Answer

def number (n : Number) : Answer := value (.number n)

def double (x : Float) : Answer := value (.number (.double x))

def int (i : Int) : Answer := value (.number (.int i))

def bool (b : Bool) : Answer := value (.bool b)

def text (s : String) : Answer := value (.text s)

def null : Answer := value .null

end Answer

/-- The number of a value, unless it is NaN. -/
def Value.number? : Value → Except NumericFault (Option Number)
  | number n => return if ← n.isNaN then none else some n
  | _ => pure none

/-- The numbers among some values, in order, without NaN. -/
def numbersOf : List Value → Except NumericFault (List Number)
  | [] => pure []
  | v :: rest => do
    let n? ← v.number?
    let ns ← numbersOf rest
    return n?.toList ++ ns

/-- A number that is finite, and null otherwise. -/
def finiteOrNull (n : Number) : Except NumericFault Answer :=
  return if ← n.isFinite then .number n else .null

/-- Null where a number cannot be formed. -/
def nullOnFault : Except NumericFault Answer → Answer
  | .ok answer => answer
  | .error _ => .null

end Quarterly.Formula
