import Quarterly.Proofs.Formula.Placed
import Quarterly.Proofs.Formula.Rules

/-!
# What readings come to

A live reading that comes back has evaluated what it has read. `Evaluates` says how, rule by rule,
and leaves out everything that does not show in the result: limits, rounds, the journal and the
fault that each rule might have ended with instead. What it keeps are the values, the identities
they use up and the metrics that are looked up, in order.
-/

namespace Quarterly.Formula

/-- What can be evaluated: a phrase, what is left of a phrase whose first part is known, or calls of
a lambda. -/
inductive Task where
  | expression
  | level (rank : Rank)
  /-- The operators of a rank and the operands behind them, applied to a value on the left. -/
  | rest (rank : Rank) (left : Value)
  | unary
  /-- What stands behind signs and in front of a percent sign, by the kind of its first token. -/
  | primary (kind : TokenKind)
  | list (closing : TokenKind)
  /-- What is left of a list behind an item. -/
  | others (closing : TokenKind)
  /-- What stands between the parentheses of a `LET`, with the closing one. -/
  | bindings
  /-- The calls of a lambda with some arguments, one after the other. -/
  | calls (f : Lambda) (arguments : List Value)

/-- What stands between the operators of a rank. -/
def Rank.task : Rank → Task
  | sum => .level .product
  | product => .unary

/-- A value in front of a percent sign. -/
def percentOf : Value → Except NumericFault Value
  | .number n => percent n
  | v => .ok v

namespace Answer

/-- The value of an answer, where a new array has a given identity. -/
def valueWith (identity : Nat) : Answer → Value
  | value v => v
  | newArray items => .array identity items

/-- The identity that is free behind an answer. -/
def nextIdentity (identity : Nat) : Answer → Nat
  | value _ => identity
  | newArray _ => identity + 1

theorem le_nextIdentity (answer : Answer) (identity : Nat) :
    identity ≤ answer.nextIdentity identity := by
  cases answer <;> simp [nextIdentity]

end Answer

/-- The index that a word stands for between brackets. -/
def Word.quarterIndex (w : Word) : Except Fault Int := Rule.quarterIndex ⟨w.kind, w.text, 0⟩

theorem quarterIndex_word {token : Token} {k : Int} (h : Rule.quarterIndex token = .ok k) :
    token.word.quarterIndex = .ok k := by
  obtain ⟨kind, text, position⟩ := token
  unfold Word.quarterIndex Token.word
  unfold Rule.quarterIndex at h ⊢
  cases kind with
  | identifier =>
    dsimp only at h ⊢
    cases hw : wordIndex? text with
    | some n =>
      rw [hw] at h
      exact h
    | none =>
      rw [hw] at h
      cases h
  | number => exact h
  | _ => cases h

section

variable (tokens : Array Token) (table : Metric.Table Float)

/-- `Evaluates tokens table task scope p n q k looked vs`: from the token `p` on and with `n` as the
next free identity, the task is evaluated up to the token `q`, with the results `vs` and with `k` as
the next free identity. The metrics `looked` are looked up on the way. -/
inductive Evaluates :
    Task → Scope → Nat → Nat → Nat → Nat → List (String × Int) → List Value → Prop where
  | plain {scope p n q k ls v} (operand : Evaluates (.level .sum) scope p n q k ls [v])
      (next : (operatorAt tokens q).bind ComparisonOp.ofSymbol? = none) :
      Evaluates .expression scope p n q k ls [v]
  | comparison {scope p n q k r m ls ls' a b op result}
      (left : Evaluates (.level .sum) scope p n q k ls [a])
      (next : (operatorAt tokens q).bind ComparisonOp.ofSymbol? = some op)
      (right : Evaluates (.level .sum) scope (q + 1) k r m ls' [b])
      (compared : Formula.comparison op a b = .ok result) :
      Evaluates .expression scope p n r m (ls ++ ls') [.bool result]
  | level {rank scope p n q k r m ls ls' a v} (first : Evaluates rank.task scope p n q k ls [a])
      (rest : Evaluates (.rest rank a) scope q k r m ls' [v]) :
      Evaluates (.level rank) scope p n r m (ls ++ ls') [v]
  | restEnd {rank a scope p n} (next : (operatorAt tokens p).bind rank.op? = none) :
      Evaluates (.rest rank a) scope p n p n [] [a]
  | restMore {rank a scope p n q k r m ls ls' op b c v}
      (next : (operatorAt tokens p).bind rank.op? = some op)
      (operand : Evaluates rank.task scope (p + 1) n q k ls [b])
      (combined : arithmetic op a b = .ok c)
      (rest : Evaluates (.rest rank c) scope q k r m ls' [v]) :
      Evaluates (.rest rank a) scope p n r m (ls ++ ls') [v]
  | negation {scope p n q k ls v} (next : operatorAt tokens p = some "-")
      (operand : Evaluates .unary scope (p + 1) n q k ls [v]) :
      Evaluates .unary scope p n q k ls [negate v]
  | percent {kind scope p n q k ls v u} (sign : operatorAt tokens p ≠ some "-")
      (operand : Evaluates (.primary kind) scope p n q k ls [v])
      (next : operatorAt tokens q = some "%")
      (divided : percentOf v = .ok u) : Evaluates .unary scope p n (q + 1) k ls [u]
  | unsigned {kind scope p n q k ls v} (sign : operatorAt tokens p ≠ some "-")
      (operand : Evaluates (.primary kind) scope p n q k ls [v])
      (next : operatorAt tokens q ≠ some "%") : Evaluates .unary scope p n q k ls [v]
  | number {scope p n text x} (word : wordAt tokens p = some ⟨.number, text⟩)
      (numeral : numeralValue text = .ok x) :
      Evaluates (.primary .number) scope p n (p + 1) n [] [.ofFinite (.double x)]
  | string {scope p n text} (word : wordAt tokens p = some ⟨.string, text⟩) :
      Evaluates (.primary .string) scope p n (p + 1) n [] [.text text]
  | array {scope p n q k ls vs} (kind : kindAt tokens p = some .leftBrace)
      (items : Evaluates (.list .rightBrace) scope (p + 1) n q k ls vs) :
      Evaluates (.primary .leftBrace) scope p n q (k + 1) ls [.array k vs]
  | bound {scope p n name v} (word : wordAt tokens p = some ⟨.identifier, name⟩)
      (noBracket : kindAt tokens (p + 1) ≠ some .leftBracket)
      (noParen : kindAt tokens (p + 1) ≠ some .leftParen) (binding : scope.lookup name = some v) :
      Evaluates (.primary .identifier) scope p n (p + 1) n [] [v]
  | metric {scope p n name} (word : wordAt tokens p = some ⟨.identifier, name⟩)
      (noBracket : kindAt tokens (p + 1) ≠ some .leftBracket)
      (noParen : kindAt tokens (p + 1) ≠ some .leftParen) (free : scope.lookup name = none) :
      Evaluates (.primary .identifier) scope p n (p + 1) n [(name, 1)]
        [lookupValue (table.resolve name 1)]
  | reference {scope p n name w i} (word : wordAt tokens p = some ⟨.identifier, name⟩)
      (opening : kindAt tokens (p + 1) = some .leftBracket)
      (index : wordAt tokens (p + 2) = some w) (counted : w.quarterIndex = .ok i)
      (closing : kindAt tokens (p + 3) = some .rightBracket) :
      Evaluates (.primary .identifier) scope p n (p + 4) n [(name, i)]
        [lookupValue (table.resolve name i)]
  | unknownCall {scope p n q k ls vs} (kind : kindAt tokens p = some .identifier)
      (opening : kindAt tokens (p + 1) = some .leftParen)
      (arguments : Evaluates (.list .rightParen) scope (p + 2) n q k ls vs) :
      Evaluates (.primary .identifier) scope p n q k ls [.null]
  | call {scope p n q k ls vs name builtin answer} (function : functionAt tokens p = some name)
      (noMap : name ≠ mapName) (noLet : name ≠ letName) (noLambda : name ≠ lambdaName)
      (known : Builtin.ofName? name = some builtin)
      (opening : kindAt tokens (p + 1) = some .leftParen)
      (arguments : Evaluates (.list .rightParen) scope (p + 2) n q k ls vs)
      (applied : builtin.apply vs = .ok answer) :
      Evaluates (.primary .function) scope p n q (answer.nextIdentity k) ls [answer.valueWith k]
  | map {scope p n q k m ls ls' vs items f us} (function : functionAt tokens p = some mapName)
      (opening : kindAt tokens (p + 1) = some .leftParen)
      (arguments : Evaluates (.list .rightParen) scope (p + 2) n q k ls vs)
      (mapping : Library.mapArguments vs = .ok (items, f))
      (calls : Evaluates (.calls f items) scope q k q m ls' us) :
      Evaluates (.primary .function) scope p n q (m + 1) (ls ++ ls') [.array m us]
  | letForm {scope p n q k ls v} (function : functionAt tokens p = some letName)
      (opening : kindAt tokens (p + 1) = some .leftParen)
      (bindings : Evaluates .bindings scope (p + 2) n q k ls [v]) :
      Evaluates (.primary .function) scope p n q k ls [v]
  | lambdaForm {scope p n q parameter} (function : functionAt tokens p = some lambdaName)
      (opening : kindAt tokens (p + 1) = some .leftParen)
      (word : wordAt tokens (p + 2) = some ⟨.identifier, parameter⟩)
      (comma : kindAt tokens (p + 3) = some .comma) (body : Reads tokens .expression (p + 4) q)
      (closing : kindAt tokens q = some .rightParen) :
      Evaluates (.primary .function) scope p n (q + 1) (n + 1) [] [.lambda n ⟨parameter, p + 4, q⟩]
  | parenthesized {scope p n q k ls v} (kind : kindAt tokens p = some .leftParen)
      (inner : Evaluates .expression scope (p + 1) n q k ls [v])
      (closing : kindAt tokens q = some .rightParen) :
      Evaluates (.primary .leftParen) scope p n (q + 1) k ls [v]
  | emptyList {closing scope p n} (kind : kindAt tokens p = some closing) :
      Evaluates (.list closing) scope p n (p + 1) n [] []
  | list {closing scope p n q k r m ls ls' v vs} (notEmpty : kindAt tokens p ≠ some closing)
      (first : Evaluates .expression scope p n q k ls [v])
      (others : Evaluates (.others closing) scope q k r m ls' vs) :
      Evaluates (.list closing) scope p n r m (ls ++ ls') (v :: vs)
  | noOthers {closing scope p n} (next : kindAt tokens p ≠ some .comma)
      (kind : kindAt tokens p = some closing) :
      Evaluates (.others closing) scope p n (p + 1) n [] []
  | others {closing scope p n q k r m ls ls' v vs} (next : kindAt tokens p = some .comma)
      (item : Evaluates .expression scope (p + 1) n q k ls [v])
      (rest : Evaluates (.others closing) scope q k r m ls' vs) :
      Evaluates (.others closing) scope p n r m (ls ++ ls') (v :: vs)
  | body {scope p n q k ls v} (next : ¬ BindingAt tokens p)
      (body : Evaluates .expression scope p n q k ls [v])
      (closing : kindAt tokens q = some .rightParen) :
      Evaluates .bindings scope p n (q + 1) k ls [v]
  | binding {scope p n q k r m ls ls' name v u}
      (word : wordAt tokens p = some ⟨.identifier, name⟩)
      (next : kindAt tokens (p + 1) = some .comma)
      (value : Evaluates .expression scope (p + 2) n q k ls [v])
      (comma : kindAt tokens q = some .comma)
      (rest : Evaluates .bindings ((name, v) :: scope) (q + 1) k r m ls' [u]) :
      Evaluates .bindings scope p n r m (ls ++ ls') [u]
  /-- A value without a comma behind it ends the bindings; the body follows at once. -/
  | lastBinding {scope p n q k r m ls ls' name v u}
      (word : wordAt tokens p = some ⟨.identifier, name⟩)
      (next : kindAt tokens (p + 1) = some .comma)
      (value : Evaluates .expression scope (p + 2) n q k ls [v])
      (noComma : kindAt tokens q ≠ some .comma)
      (body : Evaluates .expression ((name, v) :: scope) q k r m ls' [u])
      (closing : kindAt tokens r = some .rightParen) :
      Evaluates .bindings scope p n (r + 1) m (ls ++ ls') [u]
  | noCalls {f scope p n} : Evaluates (.calls f []) scope p n p n [] []
  | calls {f scope p n k m ls ls' v args u us}
      (body : Evaluates .expression ((f.parameter, v) :: scope) f.start n f.stop k ls [u])
      (rest : Evaluates (.calls f args) scope p k p m ls' us) :
      Evaluates (.calls f (v :: args)) scope p n p m (ls ++ ls') (u :: us)

end

/-- What the grammar says of the tokens that a task is about. -/
def Task.Reads (tokens : Array Token) : Task → Nat → Nat → Prop
  | .expression, p, q => Formula.Reads tokens .expression p q
  | .level rank, p, q => Formula.Reads tokens (.level rank) p q
  | .rest rank _, p, q => Formula.Reads tokens (.rest rank) p q
  | .unary, p, q => Formula.Reads tokens .unary p q
  | .primary _, p, q => Formula.Reads tokens .primary p q
  | .list closing, p, q => Formula.Reads tokens (.list closing) p q
  | .others closing, p, q =>
    ∃ r, q = r + 1 ∧ Formula.Reads tokens .others p r ∧ kindAt tokens r = some closing
  | .bindings, p, q =>
    ∃ r, q = r + 1 ∧ Formula.Reads tokens .bindings p r ∧ kindAt tokens r = some .rightParen
  | .calls _ _, p, q => p = q

theorem Rank.reads_task {tokens : Array Token} {rank : Rank} {p q : Nat} :
    rank.task.Reads tokens p q ↔ Reads tokens rank.operand p q := by
  cases rank <;> rfl

namespace Evaluates

variable {tokens : Array Token} {table : Metric.Table Float} {task : Task} {scope : Scope}
  {p n q k : Nat} {ls : List (String × Int)} {vs : List Value}

/-- What is evaluated is read. -/
theorem reads (h : Evaluates tokens table task scope p n q k ls vs) : task.Reads tokens p q := by
  induction h with
  | plain _ next operand => exact .plain operand next
  | comparison _ next _ _ left right => exact .comparison left next right
  | level _ _ first rest => exact .level (Rank.reads_task.mp first) rest
  | restEnd next => exact .restEnd next
  | restMore next _ _ _ operand rest => exact .restMore next (Rank.reads_task.mp operand) rest
  | negation next _ operand => exact .negation next operand
  | percent sign _ next _ operand => exact .percent sign operand next
  | unsigned sign _ next operand => exact .unsigned sign operand next
  | number word _ => exact .number (kindAt_of_wordAt word)
  | string word => exact .string (kindAt_of_wordAt word)
  | array kind _ items => exact .array kind items
  | bound word noBracket noParen _ | metric word noBracket noParen _ =>
    exact .name (kindAt_of_wordAt word) noBracket noParen
  | reference word opening index counted closing =>
    refine .reference (kindAt_of_wordAt word) opening ?_ closing
    rw [kindAt_of_wordAt index]
    simpa using kind_of_quarterIndex counted
  | unknownCall kind opening _ arguments => exact .unknownCall kind opening arguments
  | call function _ noLet noLambda _ opening _ _ arguments =>
    exact .call function noLet noLambda opening arguments
  | map function opening _ _ _ arguments _ =>
    exact .call function (by decide) (by decide) opening arguments
  | letForm function opening _ bindings =>
    obtain ⟨r, rfl, bindings, closing⟩ := bindings
    exact .letForm function opening bindings closing
  | lambdaForm function opening word comma body closing =>
    exact .lambdaForm function opening (kindAt_of_wordAt word) comma body closing
  | parenthesized kind _ closing inner => exact .parenthesized kind inner closing
  | emptyList kind => exact .emptyList kind
  | list notEmpty _ _ first others =>
    obtain ⟨r, rfl, others, kind⟩ := others
    exact .list notEmpty first others kind
  | noOthers next kind => exact ⟨_, rfl, .noOthers next, kind⟩
  | others next _ _ item rest =>
    obtain ⟨r, rfl, rest, kind⟩ := rest
    exact ⟨r, rfl, .others next item rest, kind⟩
  | body next _ closing body => exact ⟨_, rfl, .body next body, closing⟩
  | binding word next _ comma _ value rest =>
    obtain ⟨r, rfl, rest, closing⟩ := rest
    exact ⟨r, rfl, .binding ⟨kindAt_of_wordAt word, next⟩ value comma rest, closing⟩
  | lastBinding word next _ noComma _ closing value body =>
    exact ⟨_, rfl, .lastBinding ⟨kindAt_of_wordAt word, next⟩ value noComma body, closing⟩
  | noCalls | calls => rfl

theorem kindAt_primary {kind : TokenKind}
    (h : Evaluates tokens table (.primary kind) scope p n q k ls vs) :
    kindAt tokens p = some kind := by
  cases h with
  | number word | string word | bound word | metric word | reference word =>
    exact kindAt_of_wordAt word
  | array kind | unknownCall kind | parenthesized kind => exact kind
  | call function | map function | letForm function | lambdaForm function =>
    exact kindAt_of_functionAt function

/-- Identities are used up and never given back. -/
theorem identity_le (h : Evaluates tokens table task scope p n q k ls vs) : n ≤ k := by
  induction h with
  | @call _ _ _ _ k _ _ _ _ answer _ _ _ _ _ _ _ _ arguments =>
    exact Nat.le_trans arguments (answer.le_nextIdentity k)
  | _ => omega

end Evaluates

end Quarterly.Formula
