import Quarterly.Formula.Library.Logical
import Quarterly.Formula.Library.Math
import Quarterly.Formula.Library.Text
import Quarterly.Formula.Library.Conditional
import Quarterly.Formula.Library.Array

/-!
# The function library

Every function that formulas can call by name. Three names are not functions of values: a mapping
calls back into the evaluation, and the two forms that bind names are part of the grammar.
-/

namespace Quarterly.Formula

/-- The functions of values. -/
inductive Builtin where
  | choose | and | or | not | isNumber | isBlank
  | minimum | maximum | absolute | sum | average | count
  | round | roundUp | roundDown | squareRoot | power | logarithm | ceiling | floor
  | trim | concat | concatenate
  | ifError | notNull | coalesce
  | sumIf | countIf
  | chooseBy | sequence | index | lookup
  deriving Repr, DecidableEq

namespace Builtin

/-- The name by which formulas call a function. -/
def name : Builtin → String
  | choose => "IF"
  | and => "AND"
  | or => "OR"
  | not => "NOT"
  | isNumber => "ISNUMBER"
  | isBlank => "ISBLANK"
  | minimum => "MIN"
  | maximum => "MAX"
  | absolute => "ABS"
  | sum => "SUM"
  | average => "AVERAGE"
  | count => "COUNT"
  | round => "ROUND"
  | roundUp => "ROUNDUP"
  | roundDown => "ROUNDDOWN"
  | squareRoot => "SQRT"
  | power => "POWER"
  | logarithm => "LOG"
  | ceiling => "CEILING"
  | floor => "FLOOR"
  | trim => "TRIM"
  | concat => "CONCAT"
  | concatenate => "CONCATENATE"
  | ifError => "IFERROR"
  | notNull => "NOTNULL"
  | coalesce => "COALESCE"
  | sumIf => "SUMIF"
  | countIf => "COUNTIF"
  | chooseBy => "CHOOSE"
  | sequence => "SEQUENCE"
  | index => "INDEX"
  | lookup => "XLOOKUP"

def all : List Builtin := [
  choose, and, or, not, isNumber, isBlank, minimum, maximum, absolute, sum, average, count, round,
  roundUp, roundDown, squareRoot, power, logarithm, ceiling, floor, trim, concat, concatenate,
  ifError, notNull, coalesce, sumIf, countIf, chooseBy, sequence, index, lookup]

def ofName? (name : String) : Option Builtin := all.find? (·.name == name)

/-- The answer of a function to the values of its arguments. -/
def apply : Builtin → List Value → Except Fault Answer
  | choose => Library.choose
  | and => Library.and
  | or => Library.or
  | not => Library.not
  | isNumber => Library.isNumber
  | isBlank => Library.isBlank
  | minimum => Library.minimum
  | maximum => Library.maximum
  | absolute => Library.absolute
  | sum => Library.sum
  | average => Library.average
  | count => Library.count
  | round => Library.round
  | roundUp => Library.roundUp
  | roundDown => Library.roundDown
  | squareRoot => Library.squareRoot
  | power => Library.power
  | logarithm => Library.logarithm
  | ceiling => Library.ceiling
  | floor => Library.floor
  | trim => Library.trim
  | concat => Library.concat
  | concatenate => Library.concat
  | ifError => Library.ifError
  | notNull => Library.notNull
  | coalesce => Library.coalesce
  | sumIf => Library.sumIf
  | countIf => Library.countIf
  | chooseBy => Library.chooseBy
  | sequence => Library.sequence
  | index => Library.index
  | lookup => Library.lookup

end Builtin

/-- The name of the mapping of a lambda over an array. -/
def mapName : String := "MAP"

/-- The form that binds names to values. -/
def letName : String := "LET"

/-- The form that makes a lambda. -/
def lambdaName : String := "LAMBDA"

/-- Whether a word in capitals names a function or a form of the library. -/
def isFunctionName (word : String) : Bool :=
  (Builtin.ofName? word).isSome || [mapName, letName, lambdaName].contains word

/-- Call a function of the library from outside an evaluation, where lambdas cannot be called. -/
def callByName (name : String) (args : List Value) : Except Fault Answer :=
  match Builtin.ofName? name with
  | some f => f.apply args
  | none =>
    if name = mapName then do
      let _ ← Library.mapArguments args
      throw .noLambdaCalls
    else throw (.notInLibrary name)

end Quarterly.Formula
