import Quarterly.Formula.Operator
import Quarterly.Number.Numeral
import Quarterly.Text.Blank

/-!
# Criteria

A criterion selects values of a range. A text may begin with a comparison sign: with a number
behind it numbers are compared, otherwise equality compares the remaining text. A text without a
sign, or with an order sign that cannot apply, stands for itself.
-/

namespace Quarterly.Formula

/-- The sign that a criterion begins with. -/
inductive CriterionSign where
  | atLeast
  | atMost
  | unequal
  | greater
  | less
  | equal
  deriving Repr, DecidableEq

namespace CriterionSign

/-- The sign at the start of a text and what follows it. A sign of two characters is not read as
one of a single character. -/
def split? : List Char → Option (CriterionSign × List Char)
  | '>' :: '=' :: rest => some (atLeast, rest)
  | '<' :: '=' :: rest => some (atMost, rest)
  | '<' :: '>' :: rest => some (unequal, rest)
  | '!' :: '=' :: rest => some (unequal, rest)
  | '>' :: rest => some (greater, rest)
  | '<' :: rest => some (less, rest)
  | '=' :: rest => some (equal, rest)
  | _ => none

/-- Compare a number with the threshold of a criterion. Only equality overlooks a small drift. -/
def onNumbers (value threshold : Number) : CriterionSign → Except NumericFault Bool
  | atLeast => pure (threshold.atMost value)
  | atMost => pure (value.atMost threshold)
  | unequal => pure !(value.equal threshold)
  | greater => pure (threshold.less value)
  | less => pure (value.less threshold)
  | equal => return (← value.sub threshold).abs.less (.double tolerance)

end CriterionSign

/-- The number at the start of a text, blanks before it aside. -/
def leadingNumber? (s : String) : Option Float := leadingFloat? (s.toList.dropWhile Text.isBlank)

namespace Value

/-- Whether a value stands for a text: the text itself, or a value written that way. -/
def matchesText (v : Value) (s : String) : Bool :=
  v.strictEqual (.text s) || (!v.isNull && v.toText == s)

/-- Whether a value satisfies a criterion that is a text without blanks around it. -/
def matchesTextCriterion (v : Value) (criterion : String) : Except NumericFault Bool :=
  match CriterionSign.split? criterion.toList with
  | none => pure (v.matchesText criterion)
  | some (sign, rest) =>
    let operand := String.ofList rest
    match v, leadingNumber? operand with
    | .number n, some threshold => sign.onNumbers n (.double threshold)
    | _, _ =>
      match sign with
      | .unequal => pure !(v.strictEqual (.text operand))
      | .equal => pure (v.strictEqual (.text operand))
      | _ => pure (v.matchesText criterion)

/-- Whether a value satisfies a criterion. -/
def matchesCriterion (v : Value) : Value → Except NumericFault Bool
  | .null => pure v.isNull
  | .text s => v.matchesTextCriterion (Text.trim s)
  | .number threshold =>
    match v with
    | .number n => return (← n.sub threshold).abs.less (.double tolerance)
    | _ => pure false
  | criterion => pure (v.strictEqual criterion)

end Value

end Quarterly.Formula
