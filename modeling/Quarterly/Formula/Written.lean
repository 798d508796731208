import Quarterly.Datum.Plain
import Quarterly.Text.Blank

/-!
# Formulas as they are written

Formulas come from files and command lines, where a scalar may stand for its text. Blanks around a
formula do not count, and neither does one equals sign in front of it.
-/

namespace Quarterly.Formula

/-- The text of a formula given as data; null is the empty formula. -/
def writtenText : Datum → String
  | .null => ""
  | d => d.plain

/-- The characters of a formula that count. -/
def formulaChars (written : String) : List Char :=
  match Text.trimChars written.toList with
  | '=' :: rest => rest
  | cs => cs

end Quarterly.Formula
