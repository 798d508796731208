import Quarterly.Proofs.Formula.Decision
import Quarterly.Proofs.Formula.Placed

/-!
# Derivations without looking ahead

`Derives` is the grammar of formulas without `LET` as one would write it down: no rule says what may
not follow. It is ambiguous for stretches of tokens, but not for whole rows: in front of a closing
word everything that could continue a phrase would have to belong to it. So the rows that are
derived are those that are read (`readsRow_iff_derives`).
-/

namespace Quarterly.Formula

/-- The tokens from one position to another are derived from a phrase of the grammar, with at most
`n` expressions one inside the other. -/
inductive Derives (tokens : Array Token) : Nat → Phrase → Nat → Nat → Prop where
  | plain {n p q} (operand : Derives tokens n (.level .sum) p q) : Derives tokens n .expression p q
  | comparison {n p q r op} (left : Derives tokens n (.level .sum) p q)
      (sign : (operatorAt tokens q).bind ComparisonOp.ofSymbol? = some op)
      (right : Derives tokens n (.level .sum) (q + 1) r) : Derives tokens n .expression p r
  | level {n rank p q r} (first : Derives tokens n rank.operand p q)
      (rest : Derives tokens n (.rest rank) q r) : Derives tokens n (.level rank) p r
  | noMore {n rank p} : Derives tokens n (.rest rank) p p
  | more {n rank p q r op} (sign : (operatorAt tokens p).bind rank.op? = some op)
      (operand : Derives tokens n rank.operand (p + 1) q)
      (rest : Derives tokens n (.rest rank) q r) : Derives tokens n (.rest rank) p r
  | negation {n p q} (sign : operatorAt tokens p = some "-")
      (operand : Derives tokens n .unary (p + 1) q) : Derives tokens n .unary p q
  | percent {n p q} (operand : Derives tokens n .primary p q)
      (sign : operatorAt tokens q = some "%") : Derives tokens n .unary p (q + 1)
  | unsigned {n p q} (operand : Derives tokens n .primary p q) : Derives tokens n .unary p q
  | number {n p} (kind : kindAt tokens p = some .number) :
      Derives tokens (n + 1) .primary p (p + 1)
  | string {n p} (kind : kindAt tokens p = some .string) :
      Derives tokens (n + 1) .primary p (p + 1)
  | array {n p q} (kind : kindAt tokens p = some .leftBrace)
      (items : Derives tokens n (.list .rightBrace) (p + 1) q) :
      Derives tokens (n + 1) .primary p q
  | name {n p} (kind : kindAt tokens p = some .identifier) :
      Derives tokens (n + 1) .primary p (p + 1)
  | reference {n p} (kind : kindAt tokens p = some .identifier)
      (opening : kindAt tokens (p + 1) = some .leftBracket) (index : IndexAt tokens (p + 2))
      (closing : kindAt tokens (p + 3) = some .rightBracket) :
      Derives tokens (n + 1) .primary p (p + 4)
  | unknownCall {n p q} (kind : kindAt tokens p = some .identifier)
      (opening : kindAt tokens (p + 1) = some .leftParen)
      (arguments : Derives tokens n (.list .rightParen) (p + 2) q) :
      Derives tokens (n + 1) .primary p q
  | call {n p q name} (function : functionAt tokens p = some name) (noLambda : name ≠ lambdaName)
      (opening : kindAt tokens (p + 1) = some .leftParen)
      (arguments : Derives tokens n (.list .rightParen) (p + 2) q) :
      Derives tokens (n + 1) .primary p q
  | lambdaForm {n p q} (function : functionAt tokens p = some lambdaName)
      (opening : kindAt tokens (p + 1) = some .leftParen)
      (parameter : kindAt tokens (p + 2) = some .identifier)
      (comma : kindAt tokens (p + 3) = some .comma)
      (body : Derives tokens n .expression (p + 4) q)
      (closing : kindAt tokens q = some .rightParen) : Derives tokens (n + 1) .primary p (q + 1)
  | parenthesized {n p q} (kind : kindAt tokens p = some .leftParen)
      (inner : Derives tokens n .expression (p + 1) q)
      (closing : kindAt tokens q = some .rightParen) : Derives tokens (n + 1) .primary p (q + 1)
  | emptyList {n closing p} (kind : kindAt tokens p = some closing) :
      Derives tokens n (.list closing) p (p + 1)
  | list {n closing p q r} (first : Derives tokens n .expression p q)
      (others : Derives tokens n .others q r) (kind : kindAt tokens r = some closing) :
      Derives tokens n (.list closing) p (r + 1)
  | noOthers {n p} : Derives tokens n .others p p
  | others {n p q r} (comma : kindAt tokens p = some .comma)
      (item : Derives tokens n .expression (p + 1) q) (rest : Derives tokens n .others q r) :
      Derives tokens n .others p r

variable {tokens : Array Token} {n p q : Nat} {phrase : Phrase}

/-- What is read without `LET` is derived. -/
theorem ReadsWithin.derives (noLet : ∀ p, functionAt tokens p ≠ some letName)
    (h : ReadsWithin tokens n phrase p q) (notBindings : phrase ≠ .bindings) :
    Derives tokens n phrase p q := by
  induction h with
  | plain _ _ operand => exact .plain (operand (by simp))
  | comparison _ next _ left right => exact .comparison (left (by simp)) next (right (by simp))
  | @level _ rank _ _ _ _ _ first rest =>
    exact .level (first (by cases rank <;> simp [Rank.operand])) (rest (by simp))
  | restEnd => exact .noMore
  | @restMore _ rank _ _ _ _ next _ _ operand rest =>
    exact .more next (operand (by cases rank <;> simp [Rank.operand])) (rest (by simp))
  | negation next _ operand => exact .negation next (operand (by simp))
  | percent _ _ next operand => exact .percent (operand (by simp)) next
  | unsigned _ _ _ operand => exact .unsigned (operand (by simp))
  | number kind => exact .number kind
  | string kind => exact .string kind
  | array kind _ items => exact .array kind (items (by simp))
  | name kind => exact .name kind
  | reference kind opening index closing => exact .reference kind opening index closing
  | unknownCall kind opening _ arguments => exact .unknownCall kind opening (arguments (by simp))
  | call function _ noLambda opening _ arguments =>
    exact .call function noLambda opening (arguments (by simp))
  | letForm function => exact absurd function (noLet _)
  | lambdaForm function opening parameter comma _ closing body =>
    exact .lambdaForm function opening parameter comma (body (by simp)) closing
  | parenthesized kind _ closing inner => exact .parenthesized kind (inner (by simp)) closing
  | emptyList kind => exact .emptyList kind
  | list _ _ _ kind first others => exact .list (first (by simp)) (others (by simp)) kind
  | noOthers => exact .noOthers
  | others next _ _ item rest => exact .others next (item (by simp)) (rest (by simp))
  | body | binding | lastBinding => exact absurd rfl notBindings

/-! ### What may follow -/

namespace LooseAt

variable {bound : Nat}

theorem of_operatorAt {symbol : String} (h : operatorAt tokens p = some symbol)
    (loose : (Word.operator symbol).tightness ≤ bound) : LooseAt tokens bound p := by
  unfold operatorAt at h
  cases ht : tokens[p]? with
  | none =>
    rw [ht] at h
    cases h
  | some token =>
    rw [ht] at h
    simp only [Option.bind_some] at h
    split at h
    · rename_i kind
      cases h
      refine ⟨token.word, by simp [wordAt, ht], ?_⟩
      have word : token.word = .operator token.text := by
        simp [Token.word, Word.operator, kind]
      rwa [word]
    · cases h

/-- An operator of a rank may follow the operands of the rank. -/
theorem of_op {rank : Rank} {op : ArithmeticOp}
    (h : (operatorAt tokens p).bind rank.op? = some op) : LooseAt tokens (rank.bound + 1) p := by
  obtain ⟨symbol, hs, ho⟩ := Option.bind_eq_some_iff.mp h
  refine of_operatorAt hs ?_
  cases rank with
  | sum =>
    change Rule.termOp? symbol = some op at ho
    unfold Rule.termOp? at ho
    split at ho <;> first | decide | cases ho
  | product =>
    change Rule.factorOp? symbol = some op at ho
    unfold Rule.factorOp? at ho
    split at ho <;> first | decide | cases ho

theorem of_comparison {op : ComparisonOp}
    (h : (operatorAt tokens p).bind ComparisonOp.ofSymbol? = some op) : LooseAt tokens 1 p := by
  obtain ⟨symbol, hs, ho⟩ := Option.bind_eq_some_iff.mp h
  have symbol_eq : op.symbol = symbol := by simpa using List.find?_some ho
  subst symbol_eq
  exact of_operatorAt hs (Nat.le_of_eq op.tightness_symbol)

/-- Nothing binds more loosely than a comma or a closing word. -/
theorem of_kindAt {kind : TokenKind} (h : kindAt tokens p = some kind)
    (loose : ∀ text, (Word.mk kind text).tightness = 0) : LooseAt tokens bound p := by
  unfold kindAt at h
  cases ht : tokens[p]? with
  | none =>
    rw [ht] at h
    cases h
  | some token =>
    rw [ht] at h
    cases h
    exact ⟨token.word, by simp [wordAt, ht], Nat.le_trans (Nat.le_of_eq (loose _)) (Nat.zero_le _)⟩

theorem of_comma (h : kindAt tokens p = some .comma) : LooseAt tokens bound p :=
  of_kindAt h fun _ => rfl

theorem of_rightParen (h : kindAt tokens p = some .rightParen) : LooseAt tokens bound p :=
  of_kindAt h fun _ => rfl

end LooseAt

/-- What follows a phrase does not continue it. -/
def Phrase.EndsAt (tokens : Array Token) : Phrase → Nat → Prop
  | .expression, q => LooseAt tokens 0 q
  | .level rank, q => LooseAt tokens rank.bound q
  | .rest rank, q => LooseAt tokens rank.bound q
  | .unary, q => LooseAt tokens 3 q
  | .primary, q => LooseAt tokens 4 q
  | .list closing, _ => closing = .rightBrace ∨ closing = .rightParen
  | .others, q => LooseAt tokens 0 q ∧ kindAt tokens q ≠ some .comma
  | .bindings, _ => True

theorem Rank.endsAt_operand {rank : Rank} (h : LooseAt tokens (rank.bound + 1) q) :
    rank.operand.EndsAt tokens q := by
  cases rank <;> exact h

/-- Behind an operand stands the rest of its level. -/
theorem Derives.looseAt_rest {rank : Rank} (h : Derives tokens n (.rest rank) p q)
    (next : LooseAt tokens rank.bound q) : LooseAt tokens (rank.bound + 1) p := by
  cases h with
  | noMore => exact next.mono (Nat.le_succ _)
  | more sign _ _ => exact .of_op sign

/-- Behind an item stands the rest of its list. -/
theorem Derives.looseAt_others (h : Derives tokens n .others p q) (next : LooseAt tokens 0 q) :
    LooseAt tokens 0 p := by
  cases h with
  | noOthers => exact next
  | others comma _ _ => exact .of_comma comma

/-- What is derived is read, if what follows does not continue it. -/
theorem Derives.readsWithin (noLet : ∀ p, functionAt tokens p ≠ some letName)
    (h : Derives tokens n phrase p q) (next : phrase.EndsAt tokens q) :
    ReadsWithin tokens n phrase p q := by
  induction h with
  | plain _ operand => exact .plain (operand (next.mono (Nat.zero_le 1))) next.noComparison
  | comparison _ sign _ left right =>
    exact .comparison (left (.of_comparison sign)) sign (right (next.mono (Nat.zero_le 1)))
  | level _ rest first others =>
    exact .level (first (Rank.endsAt_operand (rest.looseAt_rest next))) (others next)
  | noMore => exact .restEnd next.noOperator
  | more sign _ rest operand others =>
    exact .restMore sign (operand (Rank.endsAt_operand (rest.looseAt_rest next))) (others next)
  | negation sign _ operand => exact .negation sign (operand next)
  | percent _ sign operand =>
    have reads := operand (.of_operatorAt sign (by decide))
    exact .percent reads.reads.noSign reads sign
  | unsigned _ operand =>
    have reads := operand (next.mono (by decide))
    exact .unsigned reads.reads.noSign reads next.noPercent
  | number kind => exact .number kind
  | string kind => exact .string kind
  | array kind _ items => exact .array kind (items (.inl rfl))
  | name kind => exact .name kind next.noOpening.1 next.noOpening.2
  | reference kind opening index closing => exact .reference kind opening index closing
  | unknownCall kind opening _ arguments => exact .unknownCall kind opening (arguments (.inr rfl))
  | call function noLambda opening _ arguments =>
    refine .call function ?_ noLambda opening (arguments (.inr rfl))
    rintro rfl
    exact noLet _ function
  | lambdaForm function opening parameter comma _ closing body =>
    exact .lambdaForm function opening parameter comma (body (.of_rightParen closing)) closing
  | parenthesized kind _ closing inner =>
    exact .parenthesized kind (inner (.of_rightParen closing)) closing
  | emptyList kind => exact .emptyList kind
  | @list _ closing p _ r _ others kind first rest =>
    have closes : LooseAt tokens 0 r ∧ kindAt tokens r ≠ some .comma := by
      rcases next with rfl | rfl
      · exact ⟨.of_kindAt kind fun _ => rfl, by simp [kind]⟩
      · exact ⟨.of_kindAt kind fun _ => rfl, by simp [kind]⟩
    have item := first (others.looseAt_others closes.1)
    have notEmpty : kindAt tokens p ≠ some closing := by
      rcases next with rfl | rfl <;> exact item.reads.kindAt_ne trivial id
    exact .list notEmpty item (rest closes) kind
  | noOthers => exact .noOthers next.2
  | others comma _ rest item others =>
    exact .others comma (item (rest.looseAt_others next.1)) (others next)

/-! ### Whole rows -/

/-- A row without `LET` is read within a limit if and only if it is derived within that limit. -/
theorem readsRow_iff_derives (ends : EndsOnce tokens)
    (noLet : ∀ p, functionAt tokens p ≠ some letName) :
    ReadsRow tokens n ↔ Derives tokens n .expression 0 (tokens.size - 1) := by
  constructor
  · intro h
    exact h.derives noLet (by simp)
  · intro h
    have pos := ends.pos
    have mark : kindAt tokens (tokens.size - 1) = some .endMark :=
      (ends.mark_iff _).mpr (by omega)
    exact h.readsWithin noLet (.of_kindAt mark fun _ => rfl)

end Quarterly.Formula
