import Quarterly.Datum.Basic
import Quarterly.Metric.Name
import Quarterly.Number.Numeral
import Quarterly.Number.Basic

/-!
# Readings

A stored metric value is a text or a number. It becomes a decimal: the number at the start of a
text, divided by a hundred when the text carries a percent sign or the name marks a percentage.
-/

namespace Quarterly.Metric

/-- A metric value as it is stored. -/
inductive Reading where
  | text (s : String)
  | number (n : Number)

/-- A text without its first percent sign. -/
def dropPercent (cs : List Char) : List Char := cs.erase '%'

namespace Reading

/-- A datum as a reading, if it can be one. A truth value counts as zero or one. -/
def ofDatum? : Datum → Option Reading
  | .text s => some (text s)
  | .int i => some (number (.int i))
  | .double x => some (number (.double x))
  | .bool b => some (number (.double (if b then 1 else 0)))
  | _ => none

/-- The number that is read, before percentages. -/
def toDouble? : Reading → Except NumericFault (Option Float)
  | text s => pure (leadingFloat? (Text.trimChars (dropPercent s.toList)))
  | number n => return some (← n.toDouble)

/-- Whether the reading itself says that it is a percentage. -/
def isMarkedPercentage : Reading → Bool
  | text s => s.toList.contains '%'
  | number _ => false

/-- The decimal of a reading under a metric name, if it is a number at all. -/
def decimal? (reading : Reading) (name : Option String) : Except NumericFault (Option Float) := do
  match ← reading.toDouble? with
  | none => pure none
  | some x =>
    if x.isNaN then pure none
    else if reading.isMarkedPercentage || name.any isPercentage then pure (some (x / 100))
    else pure (some x)

end Reading

/-- The decimal of a stored value; a missing one has none. -/
def normalizeValue (reading : Option Reading) (name : Option String) :
    Except NumericFault (Option Float) :=
  match reading with
  | none => pure none
  | some r => r.decimal? name

end Quarterly.Metric
