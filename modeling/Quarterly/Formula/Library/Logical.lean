import Quarterly.Formula.Library.Basic

/-!
# Conditions and null

Functions that choose by truth or by the absence of a value. All arguments are values already, so
nothing is skipped by choosing; only the truth of an argument may remain unasked.
-/

namespace Quarterly.Formula.Library

/-- Whether all values are true; the first false one ends the search. -/
def allTrue : List Value → Except NumericFault Bool
  | [] => pure true
  | v :: rest => do if ← v.truth then allTrue rest else pure false

/-- Whether some value is true; the first true one ends the search. -/
def anyTrue : List Value → Except NumericFault Bool
  | [] => pure false
  | v :: rest => do if ← v.truth then pure true else anyTrue rest

/-- The second value if the first is true and the third otherwise; a missing or null choice is
reported as no signal. -/
def choose (args : List Value) : Except Fault Answer := do
  checkArity "IF" (.atLeast 2) args.length
  let isTrue ← (args.headD .null).truth
  return match args.getD (if isTrue then 1 else 2) .null with
    | .null => .text noSignal
    | v => .value v

def and (args : List Value) : Except Fault Answer := return .bool (← allTrue args)

def or (args : List Value) : Except Fault Answer := return .bool (← anyTrue args)

def not (args : List Value) : Except Fault Answer := do
  checkArity "NOT" (.exactly 1) args.length
  return .bool !(← (args.headD .null).truth)

/-- Whether the argument is a number other than NaN. -/
def isNumber (args : List Value) : Except Fault Answer := do
  checkArity "ISNUMBER" (.exactly 1) args.length
  return .bool (← (args.headD .null).number?).isSome

/-- Whether the argument is null or the empty text. -/
def isBlank (args : List Value) : Except Fault Answer := do
  checkArity "ISBLANK" (.exactly 1) args.length
  return .bool (match args.headD .null with
    | .null => true
    | .text s => s.isEmpty
    | _ => false)

/-- The fallback in place of null or NaN. -/
def ifError (args : List Value) : Except Fault Answer := do
  checkArity "IFERROR" (.exactly 2) args.length
  let value := args.headD .null
  let isTrouble ← match value with
    | .null => pure true
    | .number n => n.isNaN
    | _ => pure false
  return .value (if isTrouble then args.getD 1 .null else value)

/-- The first argument unless it is null; then the second, if there is one. -/
def notNull (args : List Value) : Except Fault Answer := do
  checkArity "NOTNULL" (.atLeast 1) args.length
  let value := args.headD .null
  return .value (if value.isNull then args.getD 1 .null else value)

/-- The first argument that is not null. -/
def coalesce (args : List Value) : Except Fault Answer := do
  checkArity "COALESCE" (.atLeast 1) args.length
  return .value ((args.find? fun v => !v.isNull).getD .null)

end Quarterly.Formula.Library
