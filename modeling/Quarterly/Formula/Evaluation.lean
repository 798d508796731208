import Quarterly.Formula.Journal
import Quarterly.Formula.Library
import Quarterly.Formula.Token

/-!
# Evaluation

A formula is evaluated while it is read: every rule of the grammar consumes tokens and yields the
value of what it consumed.

    expression     := comparison
    comparison     := additive ( compareOperator additive )?
    additive       := multiplicative ( ('+' | '-') multiplicative )*
    multiplicative := unary ( ('*' | '/') unary )*
    unary          := '-' unary | primary '%'?
    primary        := number | string | array | name | name '[' index ']' | call
                    | '(' expression ')'

A lambda is the stretch of tokens of its body. The body is first read dry, which tells where it
ends, and is read again from its start for every call, in the scope of the call. A dry reading looks
nothing up, calls nothing and notes nothing.

Two measures make evaluation total. Expressions nest at most as deep as the limit allows, lambda
calls included, and `expression` recurses on what is left of the limit; the rules between two
expressions receive the evaluation of nested expressions as a parameter. Repetitions within a rule
go through the tokens: none has more rounds than there are tokens left when it starts, since every
round consumes at least one.
-/

namespace Quarterly.Formula

/-- What an evaluation works on; it stays the same from start to end. -/
structure Context where
  formula : List Char
  tokens : Array Token
  table : Metric.Table Float
  /-- How deep expressions and lambda calls may nest. -/
  maxDepth : Int := 64
  /-- Whether substitutions and steps are noted. -/
  tracing : Bool := false
  /-- Whether every look-up is noticed. -/
  verbose : Bool := false

/-- What changes during an evaluation. -/
structure State where
  /-- The token to be read next. -/
  position : Nat := 0
  /-- The identity of the next array or lambda to be made. -/
  nextIdentity : Nat := 0
  journal : Journal := {}

/-- A computation that reads tokens, writes the journal and may fault. The state is there after a
fault as well. -/
abbrev Eval := ReaderT Context (EStateM Fault State)

/-- The bindings in force, the latest first. A name that is bound twice means its latest binding. -/
abbrev Scope := List (String × Value)

/-- How formulas are read: for their value, or dry, for their end only. -/
inductive Mode where
  | live
  | dry
  deriving Repr, DecidableEq

namespace Eval

/-- The result of a computation without tokens; its fault is a fault of the evaluation. -/
def orFault {α : Type} : Except Fault α → Eval α
  | .ok a => pure a
  | .error fault => throw fault

/-- The result of a computation on numbers; its fault is a fault of the evaluation. -/
def orNumericFault {α : Type} : Except NumericFault α → Eval α
  | .ok a => pure a
  | .error cause => throw (.numeric cause)

/-! ### Tokens -/

/-- The token at a position. -/
def tokenAt (position : Nat) : Eval Token := do
  match (← read).tokens[position]? with
  | some token => pure token
  | none => throw .pastLastToken

/-- The place of the token to be read next. -/
def position : Eval Nat := return (← get).position

/-- The token to be read next. -/
def peek : Eval Token := do tokenAt (← position)

def setPosition (position : Nat) : Eval Unit := modify fun s => { s with position }

/-- Read a token. The end mark is never passed. -/
def advance : Eval Token := do
  let token ← peek
  if token.kind ≠ .endMark then setPosition ((← position) + 1)
  return token

/-- Read a token of a kind if it is next. -/
def accept (kind : TokenKind) : Eval Bool := do
  if (← peek).kind = kind then do
    let _ ← advance
    return true
  else return false

/-- Read a given operator if it is next. -/
def acceptOperator (symbol : String) : Eval Bool := do
  let token ← peek
  if token.kind = .operator ∧ token.text = symbol then do
    let _ ← advance
    return true
  else return false

/-- Read a token of a kind, or fault at the token that stands in its place. -/
def expect (kind : TokenKind) (problem : SyntaxFault) : Eval Token := do
  let token ← peek
  if token.kind = kind then advance else throw (.malformed problem token.position)

/-- The operator that is next, if it belongs to a group. -/
def operator? {α : Type} (ofSymbol? : String → Option α) : Eval (Option α) := do
  let token ← peek
  return if token.kind = .operator then ofSymbol? token.text else none

/-- How many tokens are left, the next one included. -/
def tokensLeft : Eval Nat := return (← read).tokens.size - (← position)

/-! ### The journal -/

def note (change : Journal → Journal) : Eval Unit :=
  modify fun s => { s with journal := change s.journal }

/-- Note a step of a live reading. -/
def noteStep (mode : Mode) (step : Step) : Eval Unit := do
  if mode = .live ∧ (← read).tracing then
    note fun j => { j with steps := j.steps.push step }

def notice (n : Notice) : Eval Unit := note fun j => { j with notices := j.notices.push n }

/-! ### Identities -/

/-- An identity that no value has yet. -/
def newIdentity : Eval Nat := do
  let identity := (← get).nextIdentity
  modify fun s => { s with nextIdentity := identity + 1 }
  return identity

/-- Make an array of some items. -/
def newArray (items : List Value) : Eval Value := return .array (← newIdentity) items

/-- The value that a library function answers. -/
def ofAnswer : Answer → Eval Value
  | .value v => pure v
  | .newArray items => newArray items

/-! ### Readings within a reading -/

/-- Read from another position and come back. The result tells where the reading ended. After a
fault, too, the position is the one of the outer reading. -/
def elsewhere {α : Type} (start : Nat) (inner : Eval α) : Eval (α × Nat) := fun context s =>
  match inner context { s with position := start } with
  | .ok value s' => .ok (value, s'.position) { s' with position := s.position }
  | .error fault s' => .error fault { s' with position := s.position }

end Eval

open Eval

/-- How rules of the grammar read expressions nested in them. -/
structure Nested where
  /-- Read an expression inside the current one. -/
  expression : Mode → Scope → Eval Value
  /-- Read the body of a lambda that the current expression calls. -/
  body : Scope → Eval Value

/-- The characters of a formula from one position to another. -/
def sliceText (formula : List Char) (start stop : Nat) : String :=
  String.ofList ((formula.drop start).take (stop - start))

/-- The index that a word such as `Q12` or `P3` stands for; counting by `P` starts at zero. -/
def wordIndex? (word : String) : Option Nat :=
  match word.toList with
  | letter :: digits =>
    if digits.isEmpty || !digits.all Char.isDigit then none
    else
      let n := Text.decimalNumber digits
      if letter = 'Q' ∨ letter = 'q' then some n
      else if letter = 'P' ∨ letter = 'p' then some (n + 1)
      else none
  | [] => none

/-- The double that a number token writes. A digit form without a decimal value is no numeral. -/
def numeralValue (text : String) : Except Fault Float :=
  match wholeFloat? text.toList with
  | some x => pure x
  | none => throw (.notANumeral text)

namespace Rule

/-! ### References -/

/-- The index inside the brackets of a reference. -/
def quarterIndex (token : Token) : Except Fault Int :=
  let fault : Fault := .malformed .noQuarterIndex token.position
  match token.kind with
  | .identifier =>
    match wordIndex? token.text with
    | some n => pure n
    | none => throw fault
  | .number => do truncateDouble (← numeralValue token.text)
  | _ => throw fault

/-- Look a metric up and note what was found. -/
def lookup (mode : Mode) (metric : String) (index : Int) (reference : String) : Eval Value := do
  if mode = .dry then return .null
  let context ← read
  let found := context.table.resolve metric index
  if let some quarter := found.quarter then
    note fun j => { j with referenced := j.referenced.push quarter }
  let substitution : Substitution := { reference, metric, found }
  if context.tracing then
    note fun j => { j with substitutions := j.substitutions.push substitution }
  noteStep mode (.lookup substitution)
  if context.verbose then notice (.lookedUp metric found)
  return lookupValue found

/-- A reference with brackets; its name has been read. -/
def reference (mode : Mode) (name : Token) : Eval Value := do
  let _ ← advance
  let index ← orFault (quarterIndex (← peek))
  let _ ← advance
  let closing ← expect .rightBracket .noClosingBracket
  let text := sliceText (← read).formula name.position (closing.position + 1)
  lookup mode name.text index text

/-- A name by itself: what it is bound to, or else the metric in the first quarter. -/
def name (mode : Mode) (scope : Scope) (word : String) : Eval Value :=
  match scope.lookup word with
  | some v => pure v
  | none => lookup mode word 1 word

/-! ### Lists of expressions -/

/-- Expressions behind commas, in at most as many rounds as given. -/
def moreItems (item : Eval Value) : Nat → Array Value → Eval (Array Value)
  | 0, _ => throw .pastLastToken
  | rounds + 1, items => do
    if ← accept .comma then moreItems item rounds (items.push (← item))
    else return items

/-- Expressions with commas between them, up to a closing token. -/
def items (item : Eval Value) (closing : TokenKind) (problem : SyntaxFault) :
    Eval (List Value) := do
  let values ←
    if (← peek).kind = closing then pure #[]
    else do
      let first ← item
      moreItems item (← tokensLeft) #[first]
  let _ ← expect closing problem
  return values.toList

/-- An array; its opening brace is next. -/
def array (item : Eval Value) : Eval Value := do
  let _ ← advance
  newArray (← items item .rightBrace .noClosingBrace)

/-- The arguments of a function. -/
def arguments (item : Eval Value) (function : String) : Eval (List Value) := do
  let _ ← expect .leftParen (.noArguments function)
  items item .rightParen .argumentsNotClosed

/-! ### Calls -/

/-- Call a lambda with one argument. The body must end where it was found to end. -/
def callLambda (nested : Nested) (scope : Scope) (f : Lambda) (argument : Value) :
    Eval Value := do
  let (value, stop) ← elsewhere f.start (nested.body ((f.parameter, argument) :: scope))
  if stop ≠ f.stop then throw (.malformed .lambdaEndsElsewhere (← tokenAt stop).position)
  return value

/-- Call a function of the library with evaluated arguments. -/
def applyFunction (nested : Nested) (scope : Scope) (function : String) (args : List Value) :
    Eval Value := do
  if function = mapName then
    let (items, f) ← orFault (Library.mapArguments args)
    newArray (← items.mapM (callLambda nested scope f))
  else match Builtin.ofName? function with
    | some builtin => do ofAnswer (← orFault (builtin.apply args))
    | none => throw (.notInLibrary function)

/-- A call of a library function; its name has been read. -/
def call (nested : Nested) (mode : Mode) (scope : Scope) (function : String) : Eval Value := do
  let args ← arguments (nested.expression mode scope) function
  if mode = .dry then return .null
  let result ← applyFunction nested scope function args
  noteStep mode (.call function args result)
  return result

/-- A call of something that is no function; its name has been read. -/
def unknownCall (nested : Nested) (mode : Mode) (scope : Scope) (function : String) :
    Eval Value := do
  let args ← arguments (nested.expression mode scope) function
  if mode = .live then
    notice (.unknownFunction function)
    noteStep mode (.unknownCall function args)
  return .null

/-! ### Forms that bind names -/

/-- The bindings at the start of a `LET`. A name without a comma behind it starts the body, and so
does whatever follows a binding without a comma behind it. -/
def bindings (nested : Nested) (mode : Mode) : Nat → Scope → Eval Scope
  | 0, _ => throw .pastLastToken
  | rounds + 1, scope => do
    if (← peek).kind ≠ .identifier then return scope
    let start ← position
    let name := (← advance).text
    if ← accept .comma then
      let value ← nested.expression mode scope
      let scope := (name, value) :: scope
      if (← peek).kind = .rightParen then return scope
      else if ← accept .comma then bindings nested mode rounds scope
      else return scope
    else
      setPosition start
      return scope

/-- A `LET`; its name has been read. Later bindings and the body see the earlier bindings. -/
def letForm (nested : Nested) (mode : Mode) (scope : Scope) : Eval Value := do
  let _ ← expect .leftParen .noLetArguments
  let scope ← bindings nested mode (← tokensLeft) scope
  let body ← nested.expression mode scope
  let _ ← expect .rightParen .letNotClosed
  return body

/-- Read an expression dry, for its end. Values made on the way are gone afterwards, and with them
their identities. -/
def skip (nested : Nested) (scope : Scope) : Eval Nat := do
  let before ← get
  let (_, stop) ← elsewhere before.position (nested.expression .dry scope)
  modify fun s => { s with nextIdentity := before.nextIdentity }
  return stop

/-- A `LAMBDA`; its name has been read. -/
def lambdaForm (nested : Nested) (scope : Scope) : Eval Value := do
  let _ ← expect .leftParen .noLambdaArguments
  let parameter ← expect .identifier .noLambdaParameter
  let _ ← expect .comma .noLambdaComma
  let start ← position
  let stop ← skip nested scope
  setPosition stop
  let _ ← expect .rightParen .lambdaNotClosed
  return .lambda (← newIdentity) ⟨parameter.text, start, stop⟩

/-! ### Operands -/

/-- A numeral too long for a double has no value. -/
def number (token : Token) : Eval Value := do
  let _ ← advance
  return .ofFinite (.double (← orFault (numeralValue token.text)))

/-- A name, alone or with brackets or arguments. -/
def word (nested : Nested) (mode : Mode) (scope : Scope) (token : Token) : Eval Value := do
  let _ ← advance
  match (← peek).kind with
  | .leftBracket => reference mode token
  | .leftParen => unknownCall nested mode scope token.text
  | _ => name mode scope token.text

/-- The name of a function or form, and its arguments. -/
def function (nested : Nested) (mode : Mode) (scope : Scope) (token : Token) : Eval Value := do
  let _ ← advance
  if token.text = letName then letForm nested mode scope
  else if token.text = lambdaName then lambdaForm nested scope
  else call nested mode scope token.text

def parenthesized (item : Eval Value) : Eval Value := do
  let _ ← advance
  let value ← item
  let _ ← expect .rightParen .noClosingParenthesis
  return value

def primary (nested : Nested) (mode : Mode) (scope : Scope) : Eval Value := do
  let token ← peek
  match token.kind with
  | .number => number token
  | .string => do
    let _ ← advance
    return .text token.text
  | .leftBrace => array (nested.expression mode scope)
  | .identifier => word nested mode scope token
  | .function => function nested mode scope token
  | .leftParen => parenthesized (nested.expression mode scope)
  | .endMark => throw (.malformed .endOfFormula token.position)
  | _ => throw (.malformed (.unexpected token.text) token.position)

/-- A primary with a percent sign behind it, if there is one. The sign is consumed whatever the
value is, and divides numbers only. -/
def postfixed (operand : Eval Value) (mode : Mode) : Eval Value := do
  let value ← operand
  if ← acceptOperator "%" then
    match value with
    | .number n => do
      let result ← orNumericFault (percent n)
      noteStep mode (.percent value result)
      return result
    | _ => return value
  else return value

/-- Minus signs and the operand behind them, in at most as many rounds as given. -/
def signed (operand : Eval Value) (mode : Mode) : Nat → Eval Value
  | 0 => throw .pastLastToken
  | rounds + 1 => do
    if ← acceptOperator "-" then
      let value ← signed operand mode rounds
      let result := negate value
      noteStep mode (.negation value result)
      return result
    else postfixed operand mode

def unary (nested : Nested) (mode : Mode) (scope : Scope) : Eval Value := do
  signed (primary nested mode scope) mode (← tokensLeft)

/-! ### Operators -/

/-- Apply an arithmetic operator and note it. -/
def combine (mode : Mode) (op : ArithmeticOp) (left right : Value) : Eval Value := do
  let result ← orNumericFault (arithmetic op left right)
  noteStep mode (.arithmetic op left right result)
  return result

/-- Operators of one group with operands behind them, applied from the left, in at most as many
rounds as given. -/
def chain (operand : Eval Value) (ops : String → Option ArithmeticOp) (mode : Mode) :
    Nat → Value → Eval Value
  | 0, _ => throw .pastLastToken
  | rounds + 1, left => do
    match ← operator? ops with
    | none => return left
    | some op => do
      let _ ← advance
      let right ← operand
      chain operand ops mode rounds (← combine mode op left right)

/-- Operands with operators of one group between them. -/
def level (operand : Eval Value) (ops : String → Option ArithmeticOp) (mode : Mode) :
    Eval Value := do
  let left ← operand
  chain operand ops mode (← tokensLeft) left

/-- The operators that bind more tightly. -/
def factorOp? : String → Option ArithmeticOp
  | "*" => some .mul
  | "/" => some .div
  | _ => none

/-- The operators that bind less tightly. -/
def termOp? : String → Option ArithmeticOp
  | "+" => some .add
  | "-" => some .sub
  | _ => none

def multiplicative (nested : Nested) (mode : Mode) (scope : Scope) : Eval Value :=
  level (unary nested mode scope) factorOp? mode

def additive (nested : Nested) (mode : Mode) (scope : Scope) : Eval Value :=
  level (multiplicative nested mode scope) termOp? mode

/-- At most one comparison stands on a level. -/
def compared (nested : Nested) (mode : Mode) (scope : Scope) : Eval Value := do
  let left ← additive nested mode scope
  match ← operator? ComparisonOp.ofSymbol? with
  | none => return left
  | some op => do
    let _ ← advance
    let right ← additive nested mode scope
    let result ← orNumericFault (comparison op left right)
    noteStep mode (.comparison op left right result)
    return .bool result

end Rule

/-- Expressions nest deeper than the limit. -/
def tooDeep : Eval Value := do throw (.tooDeep (← read).maxDepth)

/-- Read an expression when `depth` more levels may be entered. Expressions nested in it have one
level less, and the bodies of lambdas that it calls have two. -/
def expression : Nat → Mode → Scope → Eval Value
  | 0, _, _ => tooDeep
  | 1, mode, scope =>
    Rule.compared { expression := expression 0, body := expression 0 .live } mode scope
  | depth + 2, mode, scope =>
    Rule.compared { expression := expression (depth + 1), body := expression depth .live } mode scope

/-- Read all tokens as one expression. -/
def wholeFormula (mode : Mode) (scope : Scope) : Eval Value := do
  let value ← expression (← read).maxDepth.toNat mode scope
  let token ← peek
  if token.kind ≠ .endMark then throw (.malformed (.unexpected token.text) token.position)
  return value

/-- How an evaluation ended and what it left behind. -/
structure Evaluation where
  outcome : Except Fault Value
  /-- The token at which it ended. -/
  position : Nat
  journal : Journal

/-- Evaluate from the start. New values receive identities above those in the scope. -/
def evaluate (context : Context) (mode : Mode) (scope : Scope) : Evaluation :=
  let start : State :=
    { nextIdentity := Value.itemsIdentityBound (scope.map (·.2)) }
  match (wholeFormula mode scope).run context |>.run start with
  | .ok value s => ⟨.ok value, s.position, s.journal⟩
  | .error fault s => ⟨.error fault, s.position, s.journal⟩

end Quarterly.Formula
