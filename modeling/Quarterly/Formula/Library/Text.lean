import Quarterly.Formula.Library.Basic
import Quarterly.Text.Blank

/-!
# Text functions
-/

namespace Quarterly.Formula.Library

/-- A value as text, with null as the empty text. -/
def textOrEmpty : Value → String
  | .null => ""
  | v => v.toText

/-- The argument as text without blanks at either end. -/
def trim (args : List Value) : Except Fault Answer := do
  checkArity "TRIM" (.exactly 1) args.length
  return .text (Text.trim (textOrEmpty (args.headD .null)))

/-- All arguments as one text. -/
def concat (args : List Value) : Except Fault Answer :=
  return .text (String.join (args.map textOrEmpty))

end Quarterly.Formula.Library
