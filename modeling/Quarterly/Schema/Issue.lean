/-!
# Issues

What is wrong with data that should have a given shape, and where. Data are checked completely:
all issues are reported, in the order of the fields.
-/

namespace Quarterly.Schema

/-- What is wrong at a place. -/
inductive Problem where
  | missing
  | extraForbidden
  | stringType
  | intType
  | intParsing
  | intFromFloat
  | intTooLong
  | floatType
  | finiteNumber
  | boolType
  | boolParsing
  | listType
  /-- Something other than a mapping stands for the named model. -/
  | modelType (model : String)
  | datetimeType
  | datetimeParsing (reason : String)
  | datetimeFromDateParsing (reason : String)
  /-- A field has the right type and a value that is ruled out. -/
  | valueError (reason : String)
  deriving Repr, DecidableEq

namespace Problem

/-- The kind under which a problem is reported. -/
def kind : Problem → String
  | missing => "missing"
  | extraForbidden => "extra_forbidden"
  | stringType => "string_type"
  | intType => "int_type"
  | intParsing => "int_parsing"
  | intFromFloat => "int_from_float"
  | intTooLong => "int_parsing_size"
  | floatType => "float_type"
  | finiteNumber => "finite_number"
  | boolType => "bool_type"
  | boolParsing => "bool_parsing"
  | listType => "list_type"
  | modelType _ => "model_type"
  | datetimeType => "datetime_type"
  | datetimeParsing _ => "datetime_parsing"
  | datetimeFromDateParsing _ => "datetime_from_date_parsing"
  | valueError _ => "value_error"

/-- The wording of a problem. -/
def message : Problem → String
  | missing => "Field required"
  | extraForbidden => "Extra inputs are not permitted"
  | stringType => "Input should be a valid string"
  | intType => "Input should be a valid integer"
  | intParsing => "Input should be a valid integer, unable to parse string as an integer"
  | intFromFloat => "Input should be a valid integer, got a number with a fractional part"
  | intTooLong => "Unable to parse input string as an integer, exceeded maximum size"
  | floatType => "Input should be a valid number"
  | finiteNumber => "Input should be a finite number"
  | boolType => "Input should be a valid boolean"
  | boolParsing => "Input should be a valid boolean, unable to interpret input"
  | listType => "Input should be a valid list"
  | modelType model => "Input should be a valid dictionary or instance of " ++ model
  | datetimeType => "Input should be a valid datetime"
  | datetimeParsing reason => "Input should be a valid datetime, " ++ reason
  | datetimeFromDateParsing reason => "Input should be a valid datetime or date, " ++ reason
  | valueError reason => "Value error, " ++ reason

end Problem

/-- A problem and the path of keys that leads to it from the outside in. -/
structure Issue where
  path : List String
  problem : Problem
  deriving Repr, DecidableEq

/-- The headline over some issues with a model. -/
def headline (model : String) (issues : List Issue) : String :=
  toString issues.length ++ " validation error" ++ (if issues.length = 1 then "" else "s") ++
    " for " ++ model

end Quarterly.Schema
