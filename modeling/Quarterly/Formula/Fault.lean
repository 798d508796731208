import Quarterly.Number.Basic

/-!
# Faults

Why a formula has no value. A fault is a cause: what the grammar missed and where, which function
got the wrong number of arguments, which limit was reached, which number could not be formed. The
wording of each is fixed by `Fault.message`.
-/

namespace Quarterly.Formula

/-- How many arguments a function takes. -/
structure Arity where
  least : Int
  most : Option Int
  deriving Repr, DecidableEq

/-- What a sequence of tokens fails to be. -/
inductive SyntaxFault where
  | endOfFormula
  | unexpected (text : String)
  | noClosingParenthesis
  | noClosingBrace
  | noClosingBracket
  | noQuarterIndex
  | noArguments (function : String)
  | argumentsNotClosed
  | noLetArguments
  | letNotClosed
  | noLambdaArguments
  | noLambdaParameter
  | noLambdaComma
  | lambdaNotClosed
  | lambdaEndsElsewhere
  deriving Repr, DecidableEq

/-- Why a formula has no value. -/
inductive Fault where
  /-- The tokens do not follow the grammar. -/
  | malformed (problem : SyntaxFault) (position : Nat)
  /-- A function was called with a number of arguments that it does not take. -/
  | arity (function : String) (accepted : Arity) (count : Nat)
  /-- Expressions and lambda calls nest deeper than the limit. -/
  | tooDeep (limit : Int)
  /-- Something other than a lambda was to be applied to an array. -/
  | notALambda
  /-- A lambda cannot be called outside an evaluation. -/
  | noLambdaCalls
  /-- A number could not be formed. -/
  | numeric (cause : NumericFault)
  /-- A numeral has digits without a decimal value. -/
  | notANumeral (text : String)
  | unknownArithmetic (operator : String)
  | unknownComparison (operator : String)
  /-- The library has no function of that name. -/
  | notInLibrary (function : String)
  /-- The tokens end without an end mark. -/
  | pastLastToken
  deriving Repr, DecidableEq

namespace Arity

def exactly (n : Int) : Arity := ⟨n, some n⟩

def atLeast (n : Int) : Arity := ⟨n, none⟩

def between (n m : Int) : Arity := ⟨n, some m⟩

/-- Whether a number of arguments is accepted. -/
def accepts (arity : Arity) (count : Nat) : Bool :=
  arity.least ≤ count && (arity.most.all fun most => (count : Int) ≤ most)

/-- The demand that a number of arguments violates. A single accepted number is stated as such;
otherwise too few arguments are met with the least number and too many with both. -/
def demand (arity : Arity) (count : Nat) : String :=
  if arity.most = some arity.least then
    "requires " ++ toString arity.least ++ (if arity.least = 1 then " argument" else " arguments")
  else if (count : Int) < arity.least then
    "requires at least " ++ toString arity.least ++ " argument" ++
      (if arity.least = 1 then "" else "s")
  else
    "requires " ++ toString arity.least ++ " or " ++ toString (arity.most.getD arity.least) ++
      " arguments"

end Arity

namespace SyntaxFault

/-- The wording of a fault in the grammar. -/
def message : SyntaxFault → String
  | endOfFormula => "Unexpected end of formula"
  | unexpected text => "Unexpected token '" ++ text ++ "'"
  | noClosingParenthesis => "Expected closing parenthesis"
  | noClosingBrace => "Expected \x7d"
  | noClosingBracket => "Expected ]"
  | noQuarterIndex => "Expected quarter index (e.g. Q1, P1 or 1) inside []"
  | noArguments function => "Expected ( after function " ++ function
  | argumentsNotClosed => "Expected ) after function arguments"
  | noLetArguments => "Expected ( after LET"
  | letNotClosed => "Expected ) to close LET"
  | noLambdaArguments => "Expected ( after LAMBDA"
  | noLambdaParameter => "LAMBDA requires a parameter name"
  | noLambdaComma => "Expected comma in LAMBDA"
  | lambdaNotClosed => "Expected ) to close LAMBDA"
  | lambdaEndsElsewhere => "LAMBDA body did not end where it was recorded"

end SyntaxFault

namespace Fault

/-- The wording of a fault. -/
def message : Fault → String
  | malformed problem position =>
    problem.message ++ " (at position " ++ toString position ++ ")"
  | arity function accepted count => function ++ " " ++ accepted.demand count
  | tooDeep limit => "Formula nesting exceeds max_depth=" ++ toString limit
  | notALambda => "MAP second argument must be a LAMBDA"
  | noLambdaCalls => "MAP requires a lambda invoker"
  | numeric cause => cause.message
  | notANumeral text => "could not convert string to float: '" ++ text ++ "'"
  | unknownArithmetic operator => "Unknown arithmetic operator: " ++ operator
  | unknownComparison operator => "Unknown comparison operator: " ++ operator
  | notInLibrary function => "'" ++ function ++ "'"
  | pastLastToken => "list index out of range"

end Fault

/-- A computation on numbers takes part in one on values; its fault becomes the fault of the
whole. -/
instance : MonadLift (Except NumericFault) (Except Fault) := ⟨fun x => x.mapError .numeric⟩

/-- Accept a number of arguments or fault. -/
def checkArity (function : String) (arity : Arity) (count : Nat) : Except Fault Unit :=
  if arity.accepts count then pure () else throw (.arity function arity count)

end Quarterly.Formula
