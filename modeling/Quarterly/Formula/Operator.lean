import Quarterly.Formula.Value
import Quarterly.Formula.Fault

/-!
# Operators

Arithmetic works on two numbers; any other operand, a division by zero and a result that is not
finite give null. Comparison of numbers overlooks a small drift in equality and in the two weak
orders, while the strict orders are exact; other values can only be compared for equality, and
null compares with nothing.
-/

namespace Quarterly.Formula

inductive ArithmeticOp where
  | add
  | sub
  | mul
  | div
  deriving Repr, DecidableEq

inductive ComparisonOp where
  | equal
  | greater
  | less
  | atLeast
  | atMost
  /-- Written with two angle brackets. -/
  | unequal
  /-- Written with an exclamation mark; it means the same. -/
  | notEqual
  deriving Repr, DecidableEq

namespace ArithmeticOp

def symbol : ArithmeticOp → String
  | add => "+"
  | sub => "-"
  | mul => "*"
  | div => "/"

def all : List ArithmeticOp := [add, sub, mul, div]

def ofSymbol? (s : String) : Option ArithmeticOp := all.find? (·.symbol == s)

/-- The number that an operator yields; none for a division by zero. -/
def onNumbers (a b : Number) : ArithmeticOp → Except NumericFault (Option Number)
  | add => return some (← a.add b)
  | sub => return some (← a.sub b)
  | mul => return some (← a.mul b)
  | div => do
    if b.equal (.int 0) then return none
    return some (.double (← a.div b))

end ArithmeticOp

namespace Value

/-- A number as a value, unless it is an infinite double or NaN. -/
def ofFinite : Number → Value
  | .int i => number (.int i)
  | .double x => if x.isFinite then number (.double x) else null

end Value

/-- Apply an arithmetic operator. -/
def arithmetic (op : ArithmeticOp) : Value → Value → Except NumericFault Value
  | .number a, .number b => return ((← op.onNumbers a b).map Value.ofFinite).getD .null
  | _, _ => pure .null

/-- Apply the arithmetic operator with a given symbol. A symbol that is none only matters between
numbers. -/
def arithmeticBySymbol (symbol : String) (left right : Value) : Except Fault Value :=
  match ArithmeticOp.ofSymbol? symbol, left, right with
  | some op, _, _ => liftM (arithmetic op left right)
  | none, .number _, .number _ => throw (.unknownArithmetic symbol)
  | none, _, _ => pure .null

namespace ComparisonOp

def symbol : ComparisonOp → String
  | equal => "="
  | greater => ">"
  | less => "<"
  | atLeast => ">="
  | atMost => "<="
  | unequal => "<>"
  | notEqual => "!="

def all : List ComparisonOp := [equal, greater, less, atLeast, atMost, unequal, notEqual]

def ofSymbol? (s : String) : Option ComparisonOp := all.find? (·.symbol == s)

/-- Compare two numbers whose difference is known. -/
def onNumbers (a b difference : Number) : ComparisonOp → Except NumericFault Bool
  | greater => pure (b.less a)
  | less => pure (a.less b)
  | atLeast => return (← b.sub (.double tolerance)).atMost a
  | atMost => return a.atMost (← b.add (.double tolerance))
  | equal => pure (difference.abs.less (.double tolerance))
  | unequal | notEqual => pure ((Number.double tolerance).atMost difference.abs)

/-- Compare two values of which one is no number. -/
def onOthers (left right : Value) : ComparisonOp → Bool
  | equal => left.strictEqual right
  | unequal | notEqual => !left.strictEqual right
  | _ => false

end ComparisonOp

/-- Apply a comparison operator. The difference of two numbers is formed first, whatever the
operator. -/
def comparison (op : ComparisonOp) : Value → Value → Except NumericFault Bool
  | .null, _ => pure false
  | _, .null => pure false
  | .number a, .number b => do op.onNumbers a b (← a.sub b)
  | left, right => pure (op.onOthers left right)

/-- Apply the comparison operator with a given symbol. A symbol that is none only matters between
numbers, once their difference is formed. -/
def comparisonBySymbol (symbol : String) (left right : Value) : Except Fault Bool :=
  match ComparisonOp.ofSymbol? symbol, left, right with
  | some op, _, _ => liftM (comparison op left right)
  | none, .number a, .number b => do
    let _ ← liftM (a.sub b)
    throw (.unknownComparison symbol)
  | none, _, _ => pure false

/-- The opposite of a number; any other value has none. -/
def negate : Value → Value
  | .number n => .number n.neg
  | _ => .null

/-- A hundredth of a number. -/
def percent (n : Number) : Except NumericFault Value :=
  return .number (.double (← n.div (.int 100)))

end Quarterly.Formula
