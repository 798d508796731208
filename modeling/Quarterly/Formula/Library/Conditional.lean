import Quarterly.Formula.Library.Basic
import Quarterly.Formula.Criteria

/-!
# Aggregation under a criterion

A value that is no array is a range of one item.
-/

namespace Quarterly.Formula.Library

/-- Add the numbers of those pairs whose first part satisfies the criterion. NaN is left out. -/
def sumMatching (criterion : Value) : Number → List (Value × Value) → Except NumericFault Number
  | total, [] => pure total
  | total, (candidate, value) :: rest => do
    if ← candidate.matchesCriterion criterion then
      match ← value.number? with
      | some n => sumMatching criterion (← total.add n) rest
      | none => sumMatching criterion total rest
    else sumMatching criterion total rest

/-- The sum over the positions that both ranges have. -/
def sumIf (args : List Value) : Except Fault Answer := do
  checkArity "SUMIF" (.between 2 3) args.length
  let range := (args.headD .null).toItems
  let summed := match args with
    | [_, _, s] => s.toItems
    | _ => range
  finiteOrNull (← sumMatching (args.getD 1 .null) (.int 0) (range.zip summed))

/-- How many values satisfy the criterion. -/
def countMatching (criterion : Value) : List Value → Except NumericFault Nat
  | [] => pure 0
  | v :: rest => do
    let isMatch ← v.matchesCriterion criterion
    let others ← countMatching criterion rest
    return if isMatch then others + 1 else others

def countIf (args : List Value) : Except Fault Answer := do
  checkArity "COUNTIF" (.exactly 2) args.length
  return .int (← countMatching (args.getD 1 .null) (args.headD .null).toItems)

end Quarterly.Formula.Library
