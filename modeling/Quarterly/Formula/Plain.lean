import Quarterly.Formula.Value
import Quarterly.Text.Quoted

/-!
# Values as plain text

How a value is written into a field of a table. A text is written as it is by itself and between
quotes inside an array.
-/

namespace Quarterly.Formula

namespace Lambda

/-- A lambda with all that it consists of. -/
def described (f : Lambda) : String :=
  "LambdaValue(param_name=" ++ Text.quoted f.parameter ++ ", body_start=" ++ toString f.start ++
    ", body_end=" ++ toString f.stop ++ ")"

end Lambda

namespace Value

/-- A number with a mark of its kind: a double always has a point or an exponent. -/
def numberText : Number → String
  | .int i => toString i
  | .double x => DoubleLayout.plain.write x

mutual

/-- A value inside an array. -/
def inner : Value → String
  | null => "None"
  | bool b => if b then "True" else "False"
  | text s => Text.quoted s
  | number n => numberText n
  | array _ items => "[" ++ ", ".intercalate (inners items) ++ "]"
  | lambda _ f => f.described

def inners : List Value → List String
  | [] => []
  | v :: rest => v.inner :: inners rest

end

/-- Whether a value is the double that is no number. -/
def isNaN : Value → Bool
  | number (.double x) => x.isNaN
  | _ => false

/-- A value as a field. Nothing is written for null and for what is no number. -/
def field : Value → String
  | null => ""
  | text s => s
  | v => if v.isNaN then "" else v.inner

end Value

end Quarterly.Formula
