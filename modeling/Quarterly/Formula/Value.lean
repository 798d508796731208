import Quarterly.Number.Basic
import Quarterly.Text.Lowercase

/-!
# Values of formulas

A formula yields null, a truth value, a text, a number, an array or a lambda. Arrays and lambdas
are told apart by an identity that each receives when it is made: two arrays with the same items
are different values, and an array that was passed around is still the same one. The items say
what an array holds, the identity says which array it is.
-/

namespace Quarterly.Formula

/-- A lambda: the name of its parameter and the stretch of tokens that is its body. -/
structure Lambda where
  parameter : String
  start : Nat
  stop : Nat
  deriving Repr, DecidableEq

/-- What a formula can evaluate to. -/
inductive Value where
  | null
  | bool (b : Bool)
  | text (s : String)
  | number (n : Number)
  | array (identity : Nat) (items : List Value)
  | lambda (identity : Nat) (f : Lambda)
  deriving Inhabited

/-- The result of a formula that has none. -/
def noSignal : String := "No Signal"

/-- The drift of doubles that comparisons and criteria overlook. -/
def tolerance : Float := 1e-7

namespace Value

def isNull : Value → Bool
  | null => true
  | _ => false

/-- The items of an array; any other value is the single item of a range of its own. -/
def toItems : Value → List Value
  | array _ items => items
  | v => [v]

/-- A value as a condition. Zero, NaN, null, the empty text, the text "false" in any case and
the empty array are false. -/
def truth : Value → Except NumericFault Bool
  | null => pure false
  | bool b => pure b
  | number n => if n.equal (.int 0) then pure false else return !(← n.isNaN)
  | text s => pure (!s.isEmpty && Text.lower s != "false")
  | array _ items => pure (!items.isEmpty)
  | lambda .. => pure true

/-- Equality without conversion between kinds. Numbers are equal by value, arrays and lambdas by
identity. -/
def strictEqual : Value → Value → Bool
  | number a, number b => a.equal b
  | null, null => true
  | bool a, bool b => a == b
  | text a, text b => a == b
  | array i _, array j _ => i == j
  | lambda i _, lambda j _ => i == j
  | _, _ => false

mutual

/-- A value as text. Inside an array null is written as nothing. -/
def toText : Value → String
  | null => "null"
  | bool b => if b then "true" else "false"
  | text s => s
  | number n => n.text
  | array _ items => ",".intercalate (itemTexts items)
  | lambda _ f => "LAMBDA(" ++ f.parameter ++ ")"

/-- The texts of the items of an array. -/
def itemTexts : List Value → List String
  | [] => []
  | null :: rest => "" :: itemTexts rest
  | v :: rest => v.toText :: itemTexts rest

end

mutual

/-- The least identity above those that occur in a value. -/
def identityBound : Value → Nat
  | array identity items => max (identity + 1) (itemsIdentityBound items)
  | lambda identity _ => identity + 1
  | _ => 0

/-- The least identity above those that occur in some values. -/
def itemsIdentityBound : List Value → Nat
  | [] => 0
  | v :: rest => max v.identityBound (itemsIdentityBound rest)

end

end Value

/-- The kind of a result as it is reported. -/
inductive ResultKind where
  | string
  | number
  | boolean
  | array
  deriving Repr, DecidableEq

namespace ResultKind

def name : ResultKind → String
  | string => "string"
  | number => "number"
  | boolean => "boolean"
  | array => "array"

end ResultKind

namespace Value

/-- The kind under which a value is reported. Null and lambdas count as text. -/
def resultKind : Value → ResultKind
  | bool _ => .boolean
  | number _ => .number
  | array .. => .array
  | _ => .string

end Value

end Quarterly.Formula
