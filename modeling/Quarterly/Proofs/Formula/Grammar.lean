import Quarterly.Formula.Evaluation

/-!
# The grammar of a row of tokens

`Reads tokens phrase p q` says that the tokens from `p` up to `q` form a phrase. It mentions no
value, scope or table: only the kinds of tokens, the operators and the names of the two binding
forms count. Every rule looks at one token to decide how a phrase goes on, so a phrase that starts
at a token can end in one place only (`Reads.unique`).
-/

namespace Quarterly.Formula

/-- The two ranks of arithmetic operators. -/
inductive Rank where
  | sum
  | product
  deriving Repr, DecidableEq

/-- What a stretch of tokens can be. -/
inductive Phrase where
  | expression
  | level (rank : Rank)
  /-- The operators of a rank and the operands behind them. -/
  | rest (rank : Rank)
  | unary
  | primary
  /-- Expressions with commas between them and the closing token. -/
  | list (closing : TokenKind)
  /-- The expressions of a list behind its first one. -/
  | others
  /-- The bindings of a `LET` and its body. -/
  | bindings
  deriving Repr, DecidableEq

namespace Rank

/-- The operators of a rank. -/
def op? : Rank → String → Option ArithmeticOp
  | sum => Rule.termOp?
  | product => Rule.factorOp?

/-- What stands between the operators of a rank. -/
def operand : Rank → Phrase
  | sum => .level .product
  | product => .unary

end Rank

section

variable (tokens : Array Token)

/-- The kind of a token. -/
def kindAt (p : Nat) : Option TokenKind := tokens[p]?.map Token.kind

/-- The operator at a position. -/
def operatorAt (p : Nat) : Option String :=
  tokens[p]?.bind fun token => if token.kind = .operator then some token.text else none

/-- The name of a function at a position. -/
def functionAt (p : Nat) : Option String :=
  tokens[p]?.bind fun token => if token.kind = .function then some token.text else none

/-- Whether a name and a comma are next, as at the start of a binding. -/
def BindingAt (p : Nat) : Prop :=
  kindAt tokens p = some .identifier ∧ kindAt tokens (p + 1) = some .comma

/-- The tokens from one position to another form a phrase. -/
inductive Reads : Phrase → Nat → Nat → Prop where
  | plain {p q} (operand : Reads (.level .sum) p q)
      (next : (operatorAt tokens q).bind ComparisonOp.ofSymbol? = none) :
      Reads .expression p q
  | comparison {p q r op} (left : Reads (.level .sum) p q)
      (next : (operatorAt tokens q).bind ComparisonOp.ofSymbol? = some op)
      (right : Reads (.level .sum) (q + 1) r) : Reads .expression p r
  | level {rank p q r} (first : Reads rank.operand p q)
      (rest : Reads (.rest rank) q r) : Reads (.level rank) p r
  | restEnd {rank p} (next : (operatorAt tokens p).bind rank.op? = none) :
      Reads (.rest rank) p p
  | restMore {rank p q r op} (next : (operatorAt tokens p).bind rank.op? = some op)
      (operand : Reads rank.operand (p + 1) q) (rest : Reads (.rest rank) q r) :
      Reads (.rest rank) p r
  | negation {p q} (next : operatorAt tokens p = some "-")
      (operand : Reads .unary (p + 1) q) : Reads .unary p q
  | percent {p q} (sign : operatorAt tokens p ≠ some "-")
      (operand : Reads .primary p q) (next : operatorAt tokens q = some "%") :
      Reads .unary p (q + 1)
  | unsigned {p q} (sign : operatorAt tokens p ≠ some "-")
      (operand : Reads .primary p q) (next : operatorAt tokens q ≠ some "%") :
      Reads .unary p q
  | number {p} (kind : kindAt tokens p = some .number) : Reads .primary p (p + 1)
  | string {p} (kind : kindAt tokens p = some .string) : Reads .primary p (p + 1)
  | array {p q} (kind : kindAt tokens p = some .leftBrace)
      (items : Reads (.list .rightBrace) (p + 1) q) : Reads .primary p q
  | name {p} (kind : kindAt tokens p = some .identifier)
      (noBracket : kindAt tokens (p + 1) ≠ some .leftBracket)
      (noParen : kindAt tokens (p + 1) ≠ some .leftParen) : Reads .primary p (p + 1)
  | reference {p} (kind : kindAt tokens p = some .identifier)
      (opening : kindAt tokens (p + 1) = some .leftBracket)
      (index : kindAt tokens (p + 2) = some .identifier ∨ kindAt tokens (p + 2) = some .number)
      (closing : kindAt tokens (p + 3) = some .rightBracket) : Reads .primary p (p + 4)
  | unknownCall {p q} (kind : kindAt tokens p = some .identifier)
      (opening : kindAt tokens (p + 1) = some .leftParen)
      (arguments : Reads (.list .rightParen) (p + 2) q) : Reads .primary p q
  | call {p q name} (function : functionAt tokens p = some name) (noLet : name ≠ letName)
      (noLambda : name ≠ lambdaName) (opening : kindAt tokens (p + 1) = some .leftParen)
      (arguments : Reads (.list .rightParen) (p + 2) q) : Reads .primary p q
  | letForm {p q} (function : functionAt tokens p = some letName)
      (opening : kindAt tokens (p + 1) = some .leftParen)
      (bindings : Reads .bindings (p + 2) q)
      (closing : kindAt tokens q = some .rightParen) : Reads .primary p (q + 1)
  | lambdaForm {p q} (function : functionAt tokens p = some lambdaName)
      (opening : kindAt tokens (p + 1) = some .leftParen)
      (parameter : kindAt tokens (p + 2) = some .identifier)
      (comma : kindAt tokens (p + 3) = some .comma)
      (body : Reads .expression (p + 4) q)
      (closing : kindAt tokens q = some .rightParen) : Reads .primary p (q + 1)
  | parenthesized {p q} (kind : kindAt tokens p = some .leftParen)
      (inner : Reads .expression (p + 1) q)
      (closing : kindAt tokens q = some .rightParen) : Reads .primary p (q + 1)
  | emptyList {closing p} (kind : kindAt tokens p = some closing) :
      Reads (.list closing) p (p + 1)
  | list {closing p q r} (notEmpty : kindAt tokens p ≠ some closing)
      (first : Reads .expression p q) (others : Reads .others q r)
      (kind : kindAt tokens r = some closing) : Reads (.list closing) p (r + 1)
  | noOthers {p} (next : kindAt tokens p ≠ some .comma) : Reads .others p p
  | others {p q r} (next : kindAt tokens p = some .comma)
      (item : Reads .expression (p + 1) q) (rest : Reads .others q r) :
      Reads .others p r
  | body {p q} (next : ¬ BindingAt tokens p) (body : Reads .expression p q) :
      Reads .bindings p q
  | binding {p q r} (next : BindingAt tokens p) (value : Reads .expression (p + 2) q)
      (comma : kindAt tokens q = some .comma) (rest : Reads .bindings (q + 1) r) :
      Reads .bindings p r
  /-- A value without a comma behind it ends the bindings; the body follows at once. -/
  | lastBinding {p q r} (next : BindingAt tokens p)
      (value : Reads .expression (p + 2) q) (noComma : kindAt tokens q ≠ some .comma)
      (body : Reads .expression q r) : Reads .bindings p r

end

section

variable {tokens : Array Token}

theorem kindAt_of_operatorAt {p : Nat} {symbol : String}
    (h : operatorAt tokens p = some symbol) : kindAt tokens p = some .operator := by
  unfold operatorAt at h
  unfold kindAt
  grind

theorem kindAt_of_bind_operatorAt {α : Type} {p : Nat} {ofSymbol? : String → Option α} {op : α}
    (h : (operatorAt tokens p).bind ofSymbol? = some op) : kindAt tokens p = some .operator := by
  obtain ⟨symbol, hs, _⟩ := Option.bind_eq_some_iff.mp h
  exact kindAt_of_operatorAt hs

theorem kindAt_of_functionAt {p : Nat} {name : String}
    (h : functionAt tokens p = some name) : kindAt tokens p = some .function := by
  unfold functionAt at h
  unfold kindAt
  grind

/-- A phrase that starts at a token ends in one place. -/
theorem Reads.unique {phrase : Phrase} {p q q' : Nat} (h : Reads tokens phrase p q)
    (h' : Reads tokens phrase p q') : q = q' := by
  induction h generalizing q' with
  | plain _ next operand =>
    cases h' with
    | plain operand' _ => exact operand operand'
    | comparison left' next' _ =>
      cases operand left'
      grind
  | comparison _ next _ left right =>
    cases h' with
    | plain operand' next' =>
      cases left operand'
      grind
    | comparison left' _ right' =>
      cases left left'
      exact right right'
  | level _ _ first rest =>
    cases h' with
    | level first' rest' =>
      cases first first'
      exact rest rest'
  | restEnd next =>
    cases h' with
    | restEnd _ => rfl
    | restMore next' _ _ => grind
  | restMore next _ _ operand rest =>
    cases h' with
    | restEnd next' => grind
    | restMore _ operand' rest' =>
      cases operand operand'
      exact rest rest'
  | negation next _ operand =>
    cases h' with
    | negation _ operand' => exact operand operand'
    | percent sign _ _ | unsigned sign _ _ => exact absurd next sign
  | percent sign _ next operand =>
    cases h' with
    | negation next' _ => exact absurd next' sign
    | percent _ operand' _ => rw [operand operand']
    | unsigned _ operand' next' =>
      cases operand operand'
      exact absurd next next'
  | unsigned sign _ next operand =>
    cases h' with
    | negation next' _ => exact absurd next' sign
    | percent _ operand' next' =>
      cases operand operand'
      exact absurd next' next
    | unsigned _ operand' _ => exact operand operand'
  | number kind =>
    cases h' with
    | number _ => rfl
    | _ => grind [kindAt_of_functionAt]
  | string kind =>
    cases h' with
    | string _ => rfl
    | _ => grind [kindAt_of_functionAt]
  | array kind _ items =>
    cases h' with
    | array _ items' => exact items items'
    | _ => grind [kindAt_of_functionAt]
  | name kind noBracket noParen =>
    cases h' with
    | name _ _ _ => rfl
    | _ => grind [kindAt_of_functionAt]
  | reference kind opening _ _ =>
    cases h' with
    | reference _ _ _ _ => rfl
    | _ => grind [kindAt_of_functionAt]
  | unknownCall kind opening _ arguments =>
    cases h' with
    | unknownCall _ _ arguments' => exact arguments arguments'
    | _ => grind [kindAt_of_functionAt]
  | call function noLet noLambda _ _ arguments =>
    cases h' with
    | call _ _ _ _ arguments' => exact arguments arguments'
    | _ => grind [kindAt_of_functionAt]
  | letForm function _ _ _ bindings =>
    cases h' with
    | letForm _ _ bindings' _ => rw [bindings bindings']
    | _ => grind [kindAt_of_functionAt, letName, lambdaName]
  | lambdaForm function _ _ _ _ _ body =>
    cases h' with
    | lambdaForm _ _ _ _ body' _ => rw [body body']
    | _ => grind [kindAt_of_functionAt, letName, lambdaName]
  | parenthesized kind _ _ inner =>
    cases h' with
    | parenthesized _ inner' _ => rw [inner inner']
    | _ => grind [kindAt_of_functionAt]
  | emptyList kind =>
    cases h' with
    | emptyList _ => rfl
    | list notEmpty _ _ _ => exact absurd kind notEmpty
  | list notEmpty _ _ _ first others =>
    cases h' with
    | emptyList kind' => exact absurd kind' notEmpty
    | list _ first' others' _ =>
      cases first first'
      rw [others others']
  | noOthers next =>
    cases h' with
    | noOthers _ => rfl
    | others next' _ _ => exact absurd next' next
  | others next _ _ item rest =>
    cases h' with
    | noOthers next' => exact absurd next next'
    | others _ item' rest' =>
      cases item item'
      exact rest rest'
  | body next _ body =>
    cases h' with
    | body _ body' => exact body body'
    | binding next' _ _ _ | lastBinding next' _ _ _ => exact absurd next' next
  | binding next _ comma _ value rest =>
    cases h' with
    | body next' _ => exact absurd next next'
    | binding _ value' _ rest' =>
      cases value value'
      exact rest rest'
    | lastBinding _ value' noComma _ =>
      cases value value'
      exact absurd comma noComma
  | lastBinding next _ noComma _ value body =>
    cases h' with
    | body next' _ => exact absurd next next'
    | binding _ value' comma _ =>
      cases value value'
      exact absurd comma noComma
    | lastBinding _ value' _ body' =>
      cases value value'
      exact body body'

/-- An expression and whatever it can consist of. -/
def Phrase.IsOperand : Phrase → Prop
  | expression | level _ | unary | primary => True
  | _ => False

theorem Rank.isOperand_operand (rank : Rank) : rank.operand.IsOperand := by
  cases rank <;> trivial

/-- Kinds of the tokens that operands start with. -/
def TokenKind.Starts : TokenKind → Prop
  | number | string | identifier | function | leftParen | leftBrace | operator => True
  | _ => False

/-- An operand starts with neither a comma nor a closing word. -/
theorem Reads.kindAt_ne {phrase : Phrase} {p q : Nat} (h : Reads tokens phrase p q)
    (isOperand : phrase.IsOperand) {kind : TokenKind} (not : ¬ kind.Starts) :
    kindAt tokens p ≠ some kind := by
  rintro hk
  induction h with
  | plain _ _ operand => exact operand trivial hk
  | comparison _ _ _ left _ => exact left trivial hk
  | level _ _ first _ => exact first (Rank.isOperand_operand _) hk
  | negation next _ _ =>
    rw [kindAt_of_operatorAt next] at hk
    exact not (Option.some.inj hk ▸ trivial)
  | percent _ _ _ operand | unsigned _ _ _ operand => exact operand trivial hk
  | restEnd | restMore | emptyList | list | noOthers | others | body | binding | lastBinding =>
    exact isOperand.elim
  | number here | string here | array here | name here | reference here | unknownCall here
  | parenthesized here =>
    rw [here] at hk
    exact not (Option.some.inj hk ▸ trivial)
  | call function | letForm function | lambdaForm function =>
    rw [kindAt_of_functionAt function] at hk
    exact not (Option.some.inj hk ▸ trivial)

/-- A primary starts with no sign. -/
theorem Reads.noSign {p q : Nat} (h : Reads tokens .primary p q) : operatorAt tokens p ≠ some "-" := by
  intro sign
  have kind := kindAt_of_operatorAt sign
  cases h <;> grind [kindAt_of_functionAt]

/-- An operand that starts with a name and a comma is the name. -/
theorem Reads.eq_succ_of_bindingAt {phrase : Phrase} {p q : Nat} (h : Reads tokens phrase p q)
    (hb : BindingAt tokens p) (isOperand : phrase.IsOperand) : q = p + 1 := by
  obtain ⟨name, comma⟩ := hb
  have noOperator : ∀ symbol, operatorAt tokens (p + 1) ≠ some symbol := by
    intro symbol ho
    rw [kindAt_of_operatorAt ho] at comma
    cases comma
  induction h with
  | plain _ _ operand => exact operand trivial name comma noOperator
  | comparison _ next _ left _ =>
    obtain rfl := left trivial name comma noOperator
    obtain ⟨symbol, ho, _⟩ := Option.bind_eq_some_iff.mp next
    exact absurd ho (noOperator symbol)
  | level _ rest first _ =>
    obtain rfl := first (Rank.isOperand_operand _) name comma noOperator
    cases rest with
    | restEnd _ => rfl
    | restMore next _ _ =>
      obtain ⟨symbol, ho, _⟩ := Option.bind_eq_some_iff.mp next
      exact absurd ho (noOperator symbol)
  | negation next _ _ =>
    rw [kindAt_of_operatorAt next] at name
    cases name
  | percent _ _ next operand =>
    obtain rfl := operand trivial name comma noOperator
    exact absurd next (noOperator _)
  | unsigned _ _ _ operand => exact operand trivial name comma noOperator
  | number | string | name => rfl
  | restEnd | restMore | emptyList | list | noOthers | others | body | binding | lastBinding =>
    exact isOperand.elim
  | _ => grind [kindAt_of_functionAt]

/-- An expression that nothing but a binding could continue with a comma is no binding. -/
theorem Reads.not_bindingAt {p q : Nat} (h : Reads tokens .expression p q)
    (next : kindAt tokens q ≠ some .comma) : ¬ BindingAt tokens p := by
  intro hb
  obtain rfl := h.eq_succ_of_bindingAt hb trivial
  exact next hb.2

end

end Quarterly.Formula
