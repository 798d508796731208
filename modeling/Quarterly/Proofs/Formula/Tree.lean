import Quarterly.Proofs.Formula.Grammar

/-!
# Expression trees

A formula is evaluated while it is read, and no tree is ever built. Here are the trees that the
readings pass over in silence: what a tree looks like, the words that write it, and what it
evaluates to. The evaluation of a tree goes down the tree once, operands from left to right, and
knows nothing of tokens, depths and dry readings.

A lambda value tells where its body is written. The evaluation of a tree therefore carries along
the place where the tree starts, and the bodies of all lambdas of a formula are kept in a list by
the places where they start.
-/

namespace Quarterly.Formula

/-! ### Words -/

/-- A token without its place in the formula. -/
structure Word where
  kind : TokenKind
  text : String
  deriving Repr, DecidableEq

def Token.word (token : Token) : Word := ⟨token.kind, token.text⟩

/-- The sign of a kind that has only one. -/
def TokenKind.sign : TokenKind → String
  | leftParen => "("
  | rightParen => ")"
  | leftBracket => "["
  | rightBracket => "]"
  | leftBrace => "\x7b"
  | rightBrace => "\x7d"
  | comma => ","
  | _ => ""

namespace Word

def mark (kind : TokenKind) : Word := ⟨kind, kind.sign⟩

def operator (symbol : String) : Word := ⟨.operator, symbol⟩

@[simp] theorem kind_mark (kind : TokenKind) : (mark kind).kind = kind := rfl

@[simp] theorem kind_operator (symbol : String) : (operator symbol).kind = .operator := rfl

end Word

/-! ### Trees -/

/-- The rank of an operator. -/
def ArithmeticOp.rank : ArithmeticOp → Rank
  | add | sub => .sum
  | mul | div => .product

/-- What stands in the brackets of a reference. -/
inductive IndexWord where
  | word (text : String) (isIndex : (wordIndex? text).isSome)
  | number (text : String)

/-- A function that can be called. -/
inductive Callee where
  | builtin (f : Builtin)
  | map

/-- The tree of a phrase. -/
inductive Tree : Phrase → Type where
  | plain (operand : Tree (.level .sum)) : Tree .expression
  | comparison (left : Tree (.level .sum)) (op : ComparisonOp) (right : Tree (.level .sum)) :
      Tree .expression
  | alone {rank : Rank} (operand : Tree rank.operand) : Tree (.level rank)
  /-- An operator applies to everything of its rank on its left. -/
  | operation {rank : Rank} (left : Tree (.level rank)) (op : ArithmeticOp)
      (ofRank : op.rank = rank) (right : Tree rank.operand) : Tree (.level rank)
  | negation (operand : Tree .unary) : Tree .unary
  | percent (operand : Tree .primary) : Tree .unary
  | unsigned (operand : Tree .primary) : Tree .unary
  | number (text : String) : Tree .primary
  | string (text : String) : Tree .primary
  | array (items : List (Tree .expression)) : Tree .primary
  | name (word : String) : Tree .primary
  | reference (metric : String) (index : IndexWord) : Tree .primary
  | unknownCall (function : String) (arguments : List (Tree .expression)) : Tree .primary
  | call (function : Callee) (arguments : List (Tree .expression)) : Tree .primary
  | letForm (bindings : Tree .bindings) : Tree .primary
  | lambdaForm (parameter : String) (body : Tree .expression) : Tree .primary
  | parenthesized (inner : Tree .expression) : Tree .primary
  | letBody (body : Tree .expression) : Tree .bindings
  | binding (name : String) (value : Tree .expression) (rest : Tree .bindings) : Tree .bindings

def IndexWord.write : IndexWord → Word
  | word text _ => ⟨.identifier, text⟩
  | number text => ⟨.number, text⟩

def Callee.name : Callee → String
  | builtin f => f.name
  | map => mapName

namespace Tree

mutual

/-- The words that write a tree. -/
@[simp] def write : {phrase : Phrase} → Tree phrase → List Word
  | _, plain operand => operand.write
  | _, comparison left op right => left.write ++ .operator op.symbol :: right.write
  | _, alone operand => operand.write
  | _, operation left op _ right => left.write ++ .operator op.symbol :: right.write
  | _, negation operand => .operator "-" :: operand.write
  | _, percent operand => operand.write ++ [.operator "%"]
  | _, unsigned operand => operand.write
  | _, number text => [⟨.number, text⟩]
  | _, string text => [⟨.string, text⟩]
  | _, array items => .mark .leftBrace :: writeAll items ++ [.mark .rightBrace]
  | _, name word => [⟨.identifier, word⟩]
  | _, reference metric index =>
    [⟨.identifier, metric⟩, .mark .leftBracket, index.write, .mark .rightBracket]
  | _, unknownCall function arguments =>
    ⟨.identifier, function⟩ :: .mark .leftParen :: writeAll arguments ++ [.mark .rightParen]
  | _, call function arguments =>
    ⟨.function, function.name⟩ :: .mark .leftParen :: writeAll arguments ++ [.mark .rightParen]
  | _, letForm bindings =>
    ⟨.function, letName⟩ :: .mark .leftParen :: bindings.write ++ [.mark .rightParen]
  | _, lambdaForm parameter body =>
    ⟨.function, lambdaName⟩ :: .mark .leftParen :: ⟨.identifier, parameter⟩ :: .mark .comma ::
      body.write ++ [.mark .rightParen]
  | _, parenthesized inner => .mark .leftParen :: inner.write ++ [.mark .rightParen]
  | _, letBody body => body.write
  | _, binding word t rest =>
    ⟨.identifier, word⟩ :: .mark .comma :: t.write ++ .mark .comma :: rest.write

/-- The words of some trees, with commas between them. -/
@[simp] def writeAll : List (Tree .expression) → List Word
  | [] => []
  | t :: rest => t.write ++ writeOthers rest

/-- The words of some trees, with a comma before each. -/
@[simp] def writeOthers : List (Tree .expression) → List Word
  | [] => []
  | t :: rest => .mark .comma :: t.write ++ writeOthers rest

end

/-- How many words write a tree. -/
def width {phrase : Phrase} (t : Tree phrase) : Nat := t.write.length

/-- How many words write some trees with commas between them. -/
def widthAll (items : List (Tree .expression)) : Nat := (writeAll items).length

/-- How many words write some trees with a comma before each. -/
def widthOthers (items : List (Tree .expression)) : Nat := (writeOthers items).length

theorem length_write {phrase : Phrase} (t : Tree phrase) : t.write.length = t.width := rfl

/-! Where a tree ends, by the ends of its parts. -/

section

variable {p : Nat}

theorem end_comparison {left right : Tree (.level .sum)} {op : ComparisonOp} :
    p + (comparison left op right).width = p + left.width + 1 + right.width := by
  simp [width]
  omega

theorem end_operation {rank : Rank} {left : Tree (.level rank)} {op : ArithmeticOp}
    {ofRank : op.rank = rank} {right : Tree rank.operand} :
    p + (operation left op ofRank right).width = p + left.width + 1 + right.width := by
  simp [width]
  omega

theorem end_negation {operand : Tree .unary} :
    p + (negation operand).width = p + 1 + operand.width := by
  simp [width]
  omega

theorem end_percent {operand : Tree .primary} :
    p + (percent operand).width = p + operand.width + 1 := by
  simp [width]
  omega

theorem end_array {items : List (Tree .expression)} :
    p + (array items).width = p + 1 + widthAll items + 1 := by
  simp [width, widthAll]
  omega

theorem end_unknownCall {function : String} {arguments : List (Tree .expression)} :
    p + (unknownCall function arguments).width = p + 2 + widthAll arguments + 1 := by
  simp [width, widthAll]
  omega

theorem end_call {function : Callee} {arguments : List (Tree .expression)} :
    p + (call function arguments).width = p + 2 + widthAll arguments + 1 := by
  simp [width, widthAll]
  omega

theorem end_letForm {bindings : Tree .bindings} :
    p + (letForm bindings).width = p + 2 + bindings.width + 1 := by
  simp [width]
  omega

theorem end_lambdaForm {parameter : String} {body : Tree .expression} :
    p + (lambdaForm parameter body).width = p + 4 + body.width + 1 := by
  simp [width]
  omega

theorem end_parenthesized {inner : Tree .expression} :
    p + (parenthesized inner).width = p + 1 + inner.width + 1 := by
  simp [width]
  omega

theorem end_binding {word : String} {t : Tree .expression} {rest : Tree .bindings} :
    p + (binding word t rest).width = p + 2 + t.width + 1 + rest.width := by
  simp [width]
  omega

theorem endAll_cons {t : Tree .expression} {rest : List (Tree .expression)} :
    p + widthAll (t :: rest) = p + t.width + widthOthers rest := by
  simp [widthAll, widthOthers, width]
  omega

theorem endOthers_cons {t : Tree .expression} {rest : List (Tree .expression)} :
    p + widthOthers (t :: rest) = p + 1 + t.width + widthOthers rest := by
  simp [widthOthers, width]
  omega

end

mutual

/-- The bodies of all lambdas in a tree, each with the place where it starts, when the tree itself
starts at a given place. -/
@[simp] def bodies : {phrase : Phrase} → Tree phrase → Nat → List (Nat × Tree .expression)
  | _, plain operand, p => operand.bodies p
  | _, comparison left _ right, p => left.bodies p ++ right.bodies (p + left.width + 1)
  | _, alone operand, p => operand.bodies p
  | _, operation left _ _ right, p => left.bodies p ++ right.bodies (p + left.width + 1)
  | _, negation operand, p => operand.bodies (p + 1)
  | _, percent operand, p => operand.bodies p
  | _, unsigned operand, p => operand.bodies p
  | _, number _, _ => []
  | _, string _, _ => []
  | _, array items, p => bodiesAll items (p + 1)
  | _, name _, _ => []
  | _, reference _ _, _ => []
  | _, unknownCall _ arguments, p => bodiesAll arguments (p + 2)
  | _, call _ arguments, p => bodiesAll arguments (p + 2)
  | _, letForm bindings, p => bindings.bodies (p + 2)
  | _, lambdaForm _ body, p => (p + 4, body) :: body.bodies (p + 4)
  | _, parenthesized inner, p => inner.bodies (p + 1)
  | _, letBody body, p => body.bodies p
  | _, binding _ t rest, p => t.bodies (p + 2) ++ rest.bodies (p + 2 + t.width + 1)

@[simp] def bodiesAll : List (Tree .expression) → Nat → List (Nat × Tree .expression)
  | [], _ => []
  | t :: rest, p => t.bodies p ++ bodiesOthers rest (p + t.width)

@[simp] def bodiesOthers : List (Tree .expression) → Nat → List (Nat × Tree .expression)
  | [], _ => []
  | t :: rest, p => t.bodies (p + 1) ++ bodiesOthers rest (p + 1 + t.width)

end

end Tree

/-! ### Evaluation of trees -/

/-- What the evaluation of a tree keeps account of. -/
structure Ledger where
  /-- The identity of the next array or lambda to be made. -/
  nextIdentity : Nat := 0
  /-- The quarters looked at, in order and with repeats. -/
  referenced : Array String := #[]

/-- The account before anything is looked up. New values receive identities above those in the
scope. -/
def Ledger.start (scope : Scope) : Ledger :=
  { nextIdentity := Value.itemsIdentityBound (scope.map (·.2)) }

/-- A computation that looks up metrics, makes identities and may fault. -/
abbrev Reckoning := ReaderT (Metric.Table Float) (EStateM Fault Ledger)

namespace Reckoning

def orFault {α : Type} : Except Fault α → Reckoning α
  | .ok a => pure a
  | .error fault => throw fault

def orNumericFault {α : Type} : Except NumericFault α → Reckoning α
  | .ok a => pure a
  | .error cause => throw (.numeric cause)

def newIdentity : Reckoning Nat := do
  let identity := (← get).nextIdentity
  modify fun l => { l with nextIdentity := identity + 1 }
  return identity

def newArray (items : List Value) : Reckoning Value := return .array (← newIdentity) items

def ofAnswer : Answer → Reckoning Value
  | .value v => pure v
  | .newArray items => newArray items

/-- Look a metric up and note the quarter. -/
def lookup (metric : String) (index : Int) : Reckoning Value := do
  let found := (← read).resolve metric index
  modify fun l => { l with referenced := l.referenced ++ found.quarter.toArray }
  return lookupValue found

end Reckoning

open Reckoning

/-- The index that the brackets of a reference hold. -/
def IndexWord.index : IndexWord → Except Fault Int
  | word text isIndex => .ok ((wordIndex? text).get isIndex)
  | number text => do truncateDouble (← numeralValue text)

/-- Call a function with the values of its arguments. A mapping calls a lambda for each item. -/
def Callee.apply (callLambda : Lambda → Value → Reckoning Value) :
    Callee → List Value → Reckoning Value
  | builtin f, args => do ofAnswer (← orFault (f.apply args))
  | map, args => do
    let (items, f) ← orFault (Library.mapArguments args)
    newArray (← items.mapM (callLambda f))

namespace Tree

section

variable (callLambda : Scope → Lambda → Value → Reckoning Value)

mutual

/-- The value of a tree that starts at a given place. A name means its latest binding, or else the
metric in the first quarter; a lambda is called in the scope of the call. -/
def value : {phrase : Phrase} → Tree phrase → Nat → Scope → Reckoning Value
  | _, plain operand, p, scope => operand.value p scope
  | _, comparison left op right, p, scope => do
    let a ← left.value p scope
    let b ← right.value (p + left.width + 1) scope
    return .bool (← orNumericFault (Formula.comparison op a b))
  | _, alone operand, p, scope => operand.value p scope
  | _, operation left op _ right, p, scope => do
    let a ← left.value p scope
    let b ← right.value (p + left.width + 1) scope
    orNumericFault (arithmetic op a b)
  | _, negation operand, p, scope => return negate (← operand.value (p + 1) scope)
  | _, percent operand, p, scope => do
    match ← operand.value p scope with
    | .number n => orNumericFault (Formula.percent n)
    | v => return v
  | _, unsigned operand, p, scope => operand.value p scope
  | _, number text, _, _ => return .ofFinite (.double (← orFault (numeralValue text)))
  | _, string text, _, _ => return .text text
  | _, array items, p, scope => do newArray (← values items (p + 1) scope)
  | _, name word, _, scope =>
    match scope.lookup word with
    | some v => pure v
    | none => lookup word 1
  | _, reference metric index, _, _ => do lookup metric (← orFault index.index)
  | _, unknownCall _ arguments, p, scope => do
    let _ ← values arguments (p + 2) scope
    return .null
  | _, call function arguments, p, scope => do
    function.apply (callLambda scope) (← values arguments (p + 2) scope)
  | _, letForm bindings, p, scope => bindings.value (p + 2) scope
  | _, lambdaForm parameter body, p, _ =>
    return .lambda (← newIdentity) ⟨parameter, p + 4, p + 4 + body.width⟩
  | _, parenthesized inner, p, scope => inner.value (p + 1) scope
  | _, letBody body, p, scope => body.value p scope
  | _, binding word t rest, p, scope => do
    let v ← t.value (p + 2) scope
    rest.value (p + 2 + t.width + 1) ((word, v) :: scope)

/-- The values of some trees with commas between them. -/
def values : List (Tree .expression) → Nat → Scope → Reckoning (List Value)
  | [], _, _ => pure []
  | t :: rest, p, scope => do
    let v ← t.value p scope
    return v :: (← otherValues rest (p + t.width) scope)

/-- The values of some trees with a comma before each. -/
def otherValues : List (Tree .expression) → Nat → Scope → Reckoning (List Value)
  | [], _, _ => pure []
  | t :: rest, p, scope => do
    let v ← t.value (p + 1) scope
    return v :: (← otherValues rest (p + 1 + t.width) scope)

end

end

/-- Call a lambda whose body is one of some trees, in the scope of the call. Lambda calls nest as
deep as given. -/
def callLambda (bodies : List (Nat × Tree .expression)) :
    Nat → Scope → Lambda → Value → Reckoning Value
  | 0, _, _, _ => throw (.tooDeep 0)
  | calls + 1, scope, f, argument =>
    match bodies.lookup f.start with
    | some body => body.value (callLambda bodies calls) f.start ((f.parameter, argument) :: scope)
    | none => throw .notALambda

/-- The value of a whole formula. -/
def evaluate (t : Tree .expression) (calls : Nat) (scope : Scope) : Reckoning Value :=
  t.value (callLambda (t.bodies 0) calls) 0 scope

end Tree

end Quarterly.Formula
