import Quarterly.Formula.Operator
import Quarterly.Metric.Table

/-!
# The journal of an evaluation

What an evaluation leaves behind besides its value: the quarters it looked at, the references it
replaced by values, the steps it took, and the notices it gave. The journal is only written to.
A fault ends an evaluation, but what was noted before it stays.
-/

namespace Quarterly.Formula

/-- A reference and what it resolved to. -/
structure Substitution where
  /-- The reference as it is written in the formula. -/
  reference : String
  metric : String
  found : Metric.Lookup Float

/-- Something that an evaluation did. -/
inductive Step where
  | lookup (s : Substitution)
  | arithmetic (op : ArithmeticOp) (left right result : Value)
  | comparison (op : ComparisonOp) (left right : Value) (result : Bool)
  | negation (operand result : Value)
  | percent (operand result : Value)
  | call (function : String) (arguments : List Value) (result : Value)
  | unknownCall (function : String) (arguments : List Value)

/-- How much a notice matters. -/
inductive Level where
  | info
  | warning
  deriving Repr, DecidableEq

/-- Something worth telling whoever runs an evaluation. -/
inductive Notice where
  | lookedUp (metric : String) (found : Metric.Lookup Float)
  | unknownFunction (name : String)
  | notEvaluated (formula : String) (fault : Fault)

structure Journal where
  /-- The quarters that references were resolved in, in order and with repeats. -/
  referenced : Array String := #[]
  substitutions : Array Substitution := #[]
  steps : Array Step := #[]
  notices : Array Notice := #[]

/-- The value of a reference: a number, or null if it has none. -/
def lookupValue (found : Metric.Lookup Float) : Value :=
  match found.value with
  | some x => .number (.double x)
  | none => .null

namespace Substitution

def value (s : Substitution) : Value := lookupValue s.found

end Substitution

namespace Step

/-- The kind under which a step is reported. -/
def kind : Step → String
  | lookup _ => "metric_lookup"
  | arithmetic .. => "arithmetic"
  | comparison .. => "comparison"
  | negation .. | percent .. => "unary"
  | call .. | unknownCall .. => "function_call"

/-- Whether arithmetic had numbers to work on. -/
def areNumbers : Value → Value → Bool
  | .number _, .number _ => true
  | _, _ => false

/-- A step in words. -/
def description : Step → String
  | lookup s =>
    s.reference ++ " = " ++ s.value.toText ++
      (if s.found.usedFallback then " (Financing Margin fallback)" else "")
  | arithmetic op left right result =>
    if areNumbers left right then
      left.toText ++ " " ++ op.symbol ++ " " ++ right.toText ++ " = " ++ result.toText
    else "Arithmetic operation failed: " ++ op.symbol
  | comparison op left right result =>
    left.toText ++ " " ++ op.symbol ++ " " ++ right.toText ++ " = " ++ (Value.bool result).toText
  | negation operand result => "-" ++ operand.toText ++ " = " ++ result.toText
  | percent operand result => operand.toText ++ "% = " ++ result.toText
  | call function arguments result =>
    function ++ "(" ++ ", ".intercalate (arguments.map Value.toText) ++ ") = " ++ result.toText
  | unknownCall function _ => function ++ "(...) = null (unknown function)"

end Step

namespace Level

def name : Level → String
  | info => "INFO"
  | warning => "WARNING"

end Level

namespace Notice

def level : Notice → Level
  | lookedUp .. => .info
  | unknownFunction _ | notEvaluated .. => .warning

/-- The wording of a notice. -/
def message : Notice → String
  | lookedUp metric found =>
    "[FormulaParser] " ++ metric ++ "[Q" ++ toString found.index ++ "] -> quarter=" ++
      found.quarter.getD "None" ++ " value=" ++ (lookupValue found).toText ++
      (if found.usedFallback then " (fallback)" else "")
  | unknownFunction name => "[FormulaParser] Unknown function: " ++ name
  | notEvaluated formula fault =>
    "[FormulaEvaluator] Could not evaluate '" ++ formula ++ "': " ++ fault.message

end Notice

end Quarterly.Formula
