import Quarterly.Proofs.Formula.Grammar

/-!
# Phrases with limited nesting

`ReadsWithin tokens n phrase p q` is the grammar of `Reads` with two things counted in: at most `n`
expressions stand one inside the other, the innermost phrase and everything around it up to its
expression included, and whatever stands in the brackets of a reference is an index. A phrase that
is read within a limit is read (`ReadsWithin.reads`), so it ends where the tokens say.

Every expression but the outermost stands in parentheses or braces of its own. How many of these
are open at a token (`openAt`) is therefore how deep the token lies, and a phrase leaves as many
open as it found (`Reads.openAt_eq`).
-/

namespace Quarterly.Formula

section

variable (tokens : Array Token)

/-- An index is next: a word such as `Q12` or `P3`, or a numeral. -/
def IndexAt (p : Nat) : Prop :=
  ∃ token, tokens[p]? = some token ∧
    (token.kind = .identifier ∧ (wordIndex? token.text).isSome ∨ token.kind = .number)

/-- A call is next: a name with an opening parenthesis behind it, or the name of a function. -/
def CalledAt (p : Nat) : Prop :=
  kindAt tokens p = some .identifier ∧ kindAt tokens (p + 1) = some .leftParen ∨
    ∃ name, functionAt tokens p = some name ∧ name ≠ letName ∧ name ≠ lambdaName

/-- The tokens from one position to another form a phrase in which at most `n` expressions stand
one inside the other. -/
inductive ReadsWithin : Nat → Phrase → Nat → Nat → Prop where
  | plain {n p q} (operand : ReadsWithin n (.level .sum) p q)
      (next : (operatorAt tokens q).bind ComparisonOp.ofSymbol? = none) :
      ReadsWithin n .expression p q
  | comparison {n p q r op} (left : ReadsWithin n (.level .sum) p q)
      (next : (operatorAt tokens q).bind ComparisonOp.ofSymbol? = some op)
      (right : ReadsWithin n (.level .sum) (q + 1) r) : ReadsWithin n .expression p r
  | level {n rank p q r} (first : ReadsWithin n rank.operand p q)
      (rest : ReadsWithin n (.rest rank) q r) : ReadsWithin n (.level rank) p r
  | restEnd {n rank p} (next : (operatorAt tokens p).bind rank.op? = none) :
      ReadsWithin n (.rest rank) p p
  | restMore {n rank p q r op} (next : (operatorAt tokens p).bind rank.op? = some op)
      (operand : ReadsWithin n rank.operand (p + 1) q) (rest : ReadsWithin n (.rest rank) q r) :
      ReadsWithin n (.rest rank) p r
  | negation {n p q} (next : operatorAt tokens p = some "-")
      (operand : ReadsWithin n .unary (p + 1) q) : ReadsWithin n .unary p q
  | percent {n p q} (sign : operatorAt tokens p ≠ some "-")
      (operand : ReadsWithin n .primary p q) (next : operatorAt tokens q = some "%") :
      ReadsWithin n .unary p (q + 1)
  | unsigned {n p q} (sign : operatorAt tokens p ≠ some "-")
      (operand : ReadsWithin n .primary p q) (next : operatorAt tokens q ≠ some "%") :
      ReadsWithin n .unary p q
  | number {n p} (kind : kindAt tokens p = some .number) : ReadsWithin (n + 1) .primary p (p + 1)
  | string {n p} (kind : kindAt tokens p = some .string) : ReadsWithin (n + 1) .primary p (p + 1)
  | array {n p q} (kind : kindAt tokens p = some .leftBrace)
      (items : ReadsWithin n (.list .rightBrace) (p + 1) q) : ReadsWithin (n + 1) .primary p q
  | name {n p} (kind : kindAt tokens p = some .identifier)
      (noBracket : kindAt tokens (p + 1) ≠ some .leftBracket)
      (noParen : kindAt tokens (p + 1) ≠ some .leftParen) : ReadsWithin (n + 1) .primary p (p + 1)
  | reference {n p} (kind : kindAt tokens p = some .identifier)
      (opening : kindAt tokens (p + 1) = some .leftBracket) (index : IndexAt tokens (p + 2))
      (closing : kindAt tokens (p + 3) = some .rightBracket) :
      ReadsWithin (n + 1) .primary p (p + 4)
  | unknownCall {n p q} (kind : kindAt tokens p = some .identifier)
      (opening : kindAt tokens (p + 1) = some .leftParen)
      (arguments : ReadsWithin n (.list .rightParen) (p + 2) q) : ReadsWithin (n + 1) .primary p q
  | call {n p q name} (function : functionAt tokens p = some name) (noLet : name ≠ letName)
      (noLambda : name ≠ lambdaName) (opening : kindAt tokens (p + 1) = some .leftParen)
      (arguments : ReadsWithin n (.list .rightParen) (p + 2) q) : ReadsWithin (n + 1) .primary p q
  | letForm {n p q} (function : functionAt tokens p = some letName)
      (opening : kindAt tokens (p + 1) = some .leftParen)
      (bindings : ReadsWithin n .bindings (p + 2) q)
      (closing : kindAt tokens q = some .rightParen) : ReadsWithin (n + 1) .primary p (q + 1)
  | lambdaForm {n p q} (function : functionAt tokens p = some lambdaName)
      (opening : kindAt tokens (p + 1) = some .leftParen)
      (parameter : kindAt tokens (p + 2) = some .identifier)
      (comma : kindAt tokens (p + 3) = some .comma)
      (body : ReadsWithin n .expression (p + 4) q)
      (closing : kindAt tokens q = some .rightParen) : ReadsWithin (n + 1) .primary p (q + 1)
  | parenthesized {n p q} (kind : kindAt tokens p = some .leftParen)
      (inner : ReadsWithin n .expression (p + 1) q)
      (closing : kindAt tokens q = some .rightParen) : ReadsWithin (n + 1) .primary p (q + 1)
  | emptyList {n closing p} (kind : kindAt tokens p = some closing) :
      ReadsWithin n (.list closing) p (p + 1)
  | list {n closing p q r} (notEmpty : kindAt tokens p ≠ some closing)
      (first : ReadsWithin n .expression p q) (others : ReadsWithin n .others q r)
      (kind : kindAt tokens r = some closing) : ReadsWithin n (.list closing) p (r + 1)
  | noOthers {n p} (next : kindAt tokens p ≠ some .comma) : ReadsWithin n .others p p
  | others {n p q r} (next : kindAt tokens p = some .comma)
      (item : ReadsWithin n .expression (p + 1) q) (rest : ReadsWithin n .others q r) :
      ReadsWithin n .others p r
  | body {n p q} (next : ¬ BindingAt tokens p) (body : ReadsWithin n .expression p q) :
      ReadsWithin n .bindings p q
  | binding {n p q r} (next : BindingAt tokens p) (value : ReadsWithin n .expression (p + 2) q)
      (comma : kindAt tokens q = some .comma) (rest : ReadsWithin n .bindings (q + 1) r) :
      ReadsWithin n .bindings p r
  | lastBinding {n p q r} (next : BindingAt tokens p)
      (value : ReadsWithin n .expression (p + 2) q) (noComma : kindAt tokens q ≠ some .comma)
      (body : ReadsWithin n .expression q r) : ReadsWithin n .bindings p r

/-- A phrase starts at a position. -/
def Readable (n : Nat) (phrase : Phrase) (p : Nat) : Prop :=
  ∃ q, ReadsWithin tokens n phrase p q

end

/-- How many more parentheses and braces are open behind a token of a kind than before it. -/
def TokenKind.turn : TokenKind → Int
  | leftParen | leftBrace => 1
  | rightParen | rightBrace => -1
  | _ => 0

/-- How many parentheses and braces are open at a position. -/
def openAt (tokens : Array Token) : Nat → Int
  | 0 => 0
  | p + 1 => openAt tokens p + (kindAt tokens p).elim 0 TokenKind.turn

/-- How many more parentheses and braces are open behind a phrase than before it. -/
def Phrase.turn : Phrase → Int
  | .list closing => closing.turn
  | _ => 0

section

variable {tokens : Array Token} {n p q : Nat} {phrase : Phrase}

theorem IndexAt.kind (h : IndexAt tokens p) :
    kindAt tokens p = some .identifier ∨ kindAt tokens p = some .number := by
  obtain ⟨token, ht, ⟨hk, _⟩ | hk⟩ := h
  · exact .inl (by simp [kindAt, ht, hk])
  · exact .inr (by simp [kindAt, ht, hk])

theorem ReadsWithin.reads (h : ReadsWithin tokens n phrase p q) : Reads tokens phrase p q := by
  induction h with
  | plain _ next operand => exact .plain operand next
  | comparison _ next _ left right => exact .comparison left next right
  | level _ _ first rest => exact .level first rest
  | restEnd next => exact .restEnd next
  | restMore next _ _ operand rest => exact .restMore next operand rest
  | negation next _ operand => exact .negation next operand
  | percent sign _ next operand => exact .percent sign operand next
  | unsigned sign _ next operand => exact .unsigned sign operand next
  | number kind => exact .number kind
  | string kind => exact .string kind
  | array kind _ items => exact .array kind items
  | name kind noBracket noParen => exact .name kind noBracket noParen
  | reference kind opening index closing => exact .reference kind opening index.kind closing
  | unknownCall kind opening _ arguments => exact .unknownCall kind opening arguments
  | call function noLet noLambda opening _ arguments =>
    exact .call function noLet noLambda opening arguments
  | letForm function opening _ closing bindings =>
    exact .letForm function opening bindings closing
  | lambdaForm function opening parameter comma _ closing body =>
    exact .lambdaForm function opening parameter comma body closing
  | parenthesized kind _ closing inner => exact .parenthesized kind inner closing
  | emptyList kind => exact .emptyList kind
  | list notEmpty _ _ kind first others => exact .list notEmpty first others kind
  | noOthers next => exact .noOthers next
  | others next _ _ item rest => exact .others next item rest
  | body next _ body => exact .body next body
  | binding next _ comma _ value rest => exact .binding next value comma rest
  | lastBinding next _ noComma _ value body => exact .lastBinding next value noComma body

/-- Where a phrase ends does not depend on the limit. -/
theorem ReadsWithin.eq_end {k q' : Nat} (h : ReadsWithin tokens n phrase p q)
    (h' : ReadsWithin tokens k phrase p q') : q' = q :=
  h'.reads.unique h.reads

/-- An operand takes part in an expression, which counts. -/
theorem ReadsWithin.pos (h : ReadsWithin tokens n phrase p q) (isOperand : phrase.IsOperand) :
    0 < n := by
  induction h with
  | plain _ _ operand => exact operand trivial
  | comparison _ _ _ left _ => exact left trivial
  | level _ _ first _ => exact first (Rank.isOperand_operand _)
  | negation _ _ operand | percent _ _ _ operand | unsigned _ _ _ operand => exact operand trivial
  | restEnd | restMore | emptyList | list | noOthers | others | body | binding | lastBinding =>
    exact isOperand.elim
  | _ => exact Nat.succ_pos _

theorem Reads.le (h : Reads tokens phrase p q) : p ≤ q := by
  induction h <;> omega

theorem ReadsWithin.le (h : ReadsWithin tokens n phrase p q) : p ≤ q :=
  h.reads.le

theorem lt_size_of_kindAt {kind : TokenKind} (h : kindAt tokens p = some kind) :
    p < tokens.size := by
  unfold kindAt at h
  grind

/-- An operand starts with a token. -/
theorem ReadsWithin.lt_size (h : ReadsWithin tokens n phrase p q) (isOperand : phrase.IsOperand) :
    p < tokens.size := by
  induction h with
  | plain _ _ operand => exact operand trivial
  | comparison _ _ _ left _ => exact left trivial
  | level _ _ first _ => exact first (Rank.isOperand_operand _)
  | negation next _ _ => exact lt_size_of_kindAt (kindAt_of_operatorAt next)
  | percent _ _ _ operand | unsigned _ _ _ operand => exact operand trivial
  | restEnd | restMore | emptyList | list | noOthers | others | body | binding | lastBinding =>
    exact isOperand.elim
  | number kind | string kind | array kind | name kind | reference kind | unknownCall kind
  | parenthesized kind => exact lt_size_of_kindAt kind
  | call function | letForm function | lambdaForm function =>
    exact lt_size_of_kindAt (kindAt_of_functionAt function)

/-! ### Open parentheses and braces -/

theorem openAt_succ {kind : TokenKind} (h : kindAt tokens p = some kind) :
    openAt tokens (p + 1) = openAt tokens p + kind.turn := by
  rw [openAt, h, Option.elim_some]

/-- A token that neither opens nor closes anything. -/
theorem openAt_succ_of_turn {kind : TokenKind} (h : kindAt tokens p = some kind)
    (level : kind.turn = 0) : openAt tokens (p + 1) = openAt tokens p := by
  rw [openAt_succ h, level, Int.add_zero]

/-- Behind a phrase as many parentheses and braces are open as before it, unless it ends with one
that was open before. -/
theorem Reads.openAt_eq (h : Reads tokens phrase p q) :
    openAt tokens q = openAt tokens p + phrase.turn := by
  induction h with
  | plain _ _ operand => exact operand
  | comparison _ next _ left right =>
    have sign := openAt_succ (kindAt_of_bind_operatorAt next)
    simp_all [Phrase.turn, TokenKind.turn]
  | @level rank _ _ _ _ _ first rest => cases rank <;> simp_all [Phrase.turn, Rank.operand]
  | restEnd => simp [Phrase.turn]
  | @restMore rank _ _ _ _ next _ _ operand rest =>
    have sign := openAt_succ (kindAt_of_bind_operatorAt next)
    cases rank <;> simp_all [Phrase.turn, TokenKind.turn, Rank.operand]
  | negation next _ operand =>
    have sign := openAt_succ (kindAt_of_operatorAt next)
    simp_all [Phrase.turn, TokenKind.turn]
  | percent _ _ next operand =>
    have sign := openAt_succ (kindAt_of_operatorAt next)
    simp_all [Phrase.turn, TokenKind.turn]
  | unsigned _ _ _ operand => exact operand
  | number kind | string kind | name kind =>
    simp [openAt_succ kind, Phrase.turn, TokenKind.turn]
  | array kind _ items =>
    rw [items, openAt_succ kind]
    simp only [Phrase.turn, TokenKind.turn]
    omega
  | @reference p kind opening index closing =>
    have inner : openAt tokens (p + 3) = openAt tokens (p + 2) := by
      rcases index with index | index <;> exact openAt_succ_of_turn index rfl
    rw [openAt_succ closing, inner, openAt_succ opening, openAt_succ kind]
    simp only [Phrase.turn, TokenKind.turn]
    omega
  | unknownCall kind opening _ arguments =>
    rw [arguments, openAt_succ opening, openAt_succ kind]
    simp only [Phrase.turn, TokenKind.turn]
    omega
  | call function _ _ opening _ arguments =>
    rw [arguments, openAt_succ opening, openAt_succ (kindAt_of_functionAt function)]
    simp only [Phrase.turn, TokenKind.turn]
    omega
  | letForm function opening _ closing bindings =>
    rw [openAt_succ closing, bindings, openAt_succ opening,
      openAt_succ (kindAt_of_functionAt function)]
    simp only [Phrase.turn, TokenKind.turn]
    omega
  | lambdaForm function opening parameter comma _ closing body =>
    rw [openAt_succ closing, body, openAt_succ comma, openAt_succ parameter, openAt_succ opening,
      openAt_succ (kindAt_of_functionAt function)]
    simp only [Phrase.turn, TokenKind.turn]
    omega
  | parenthesized kind _ closing inner =>
    rw [openAt_succ closing, inner, openAt_succ kind]
    simp only [Phrase.turn, TokenKind.turn]
    omega
  | emptyList kind => exact openAt_succ kind
  | list _ _ _ kind first others =>
    rw [openAt_succ kind, others, first]
    simp [Phrase.turn]
  | noOthers => simp [Phrase.turn]
  | others next _ _ item rest =>
    rw [rest, item, openAt_succ next]
    simp [Phrase.turn, TokenKind.turn]
  | body _ _ body => exact body
  | binding next _ comma _ value rest =>
    rw [rest, openAt_succ comma, value, openAt_succ next.2, openAt_succ next.1]
    simp [Phrase.turn, TokenKind.turn]
  | lastBinding next _ _ _ value body =>
    rw [body, value, openAt_succ next.2, openAt_succ next.1]
    simp [Phrase.turn, TokenKind.turn]

/-- Behind a phrase that closes nothing as many are open as before it. -/
theorem ReadsWithin.openAt_eq (h : ReadsWithin tokens n phrase p q) (even : phrase.turn = 0) :
    openAt tokens q = openAt tokens p := by
  rw [h.reads.openAt_eq, even, Int.add_zero]

theorem Rank.turn_operand (rank : Rank) : rank.operand.turn = 0 := by
  cases rank <;> rfl

/-! ### The parts of a phrase

Wherever a phrase starts, its parts start where the tokens say. -/

namespace Readable

variable {m : Nat} {rank : Rank} {closing : TokenKind}

theorem left (h : Readable tokens n .expression p) : Readable tokens n (.level .sum) p := by
  obtain ⟨r, h⟩ := h
  cases h with
  | plain operand _ => exact ⟨_, operand⟩
  | comparison left _ _ => exact ⟨_, left⟩

theorem right {op : ComparisonOp} (h : Readable tokens n .expression p)
    (left : ReadsWithin tokens m (.level .sum) p q)
    (next : (operatorAt tokens q).bind ComparisonOp.ofSymbol? = some op) :
    Readable tokens n (.level .sum) (q + 1) := by
  obtain ⟨r, h⟩ := h
  cases h with
  | plain left' next' =>
    cases left.eq_end left'
    rw [next] at next'
    cases next'
  | comparison left' _ right =>
    cases left.eq_end left'
    exact ⟨_, right⟩

theorem first (h : Readable tokens n (.level rank) p) : Readable tokens n rank.operand p := by
  obtain ⟨r, h⟩ := h
  cases h with
  | level first _ => exact ⟨_, first⟩

theorem rest (h : Readable tokens n (.level rank) p)
    (first : ReadsWithin tokens m rank.operand p q) : Readable tokens n (.rest rank) q := by
  obtain ⟨r, h⟩ := h
  cases h with
  | level first' rest =>
    cases first.eq_end first'
    exact ⟨_, rest⟩

theorem operand {op : ArithmeticOp} (h : Readable tokens n (.rest rank) p)
    (next : (operatorAt tokens p).bind rank.op? = some op) :
    Readable tokens n rank.operand (p + 1) := by
  obtain ⟨r, h⟩ := h
  cases h with
  | restEnd next' =>
    rw [next] at next'
    cases next'
  | restMore _ operand _ => exact ⟨_, operand⟩

theorem more {op : ArithmeticOp} (h : Readable tokens n (.rest rank) p)
    (next : (operatorAt tokens p).bind rank.op? = some op)
    (operand : ReadsWithin tokens m rank.operand (p + 1) q) : Readable tokens n (.rest rank) q := by
  obtain ⟨r, h⟩ := h
  cases h with
  | restEnd next' =>
    rw [next] at next'
    cases next'
  | restMore _ operand' rest =>
    cases operand.eq_end operand'
    exact ⟨_, rest⟩

theorem negated (h : Readable tokens n .unary p) (next : operatorAt tokens p = some "-") :
    Readable tokens n .unary (p + 1) := by
  obtain ⟨r, h⟩ := h
  cases h with
  | negation _ operand => exact ⟨_, operand⟩
  | percent sign _ _ | unsigned sign _ _ => exact absurd next sign

theorem unsigned (h : Readable tokens n .unary p) (sign : operatorAt tokens p ≠ some "-") :
    Readable tokens n .primary p := by
  obtain ⟨r, h⟩ := h
  cases h with
  | negation next _ => exact absurd next sign
  | percent _ operand _ | unsigned _ operand _ => exact ⟨_, operand⟩

/-! Primaries; what stands in their brackets is nested one deeper. -/

theorem items (h : Readable tokens n .primary p) (kind : kindAt tokens p = some .leftBrace) :
    ∃ k, n = k + 1 ∧ Readable tokens k (.list .rightBrace) (p + 1) := by
  obtain ⟨r, h⟩ := h
  cases h with
  | array _ items => exact ⟨_, rfl, _, items⟩
  | _ => grind [kindAt_of_functionAt]

theorem index (h : Readable tokens n .primary p) (kind : kindAt tokens p = some .identifier)
    (opening : kindAt tokens (p + 1) = some .leftBracket) :
    IndexAt tokens (p + 2) ∧ kindAt tokens (p + 3) = some .rightBracket := by
  obtain ⟨r, h⟩ := h
  cases h with
  | reference _ _ index closing => exact ⟨index, closing⟩
  | _ => grind [kindAt_of_functionAt]

theorem arguments (h : Readable tokens n .primary p) (called : CalledAt tokens p) :
    kindAt tokens (p + 1) = some .leftParen ∧
      ∃ k, n = k + 1 ∧ Readable tokens k (.list .rightParen) (p + 2) := by
  obtain ⟨r, h⟩ := h
  cases h with
  | unknownCall _ opening arguments => exact ⟨opening, _, rfl, _, arguments⟩
  | call _ _ _ opening arguments => exact ⟨opening, _, rfl, _, arguments⟩
  | _ => grind [CalledAt, kindAt_of_functionAt]

theorem bindings (h : Readable tokens n .primary p) (name : functionAt tokens p = some letName) :
    kindAt tokens (p + 1) = some .leftParen ∧ ∃ k, n = k + 1 ∧
      ∃ q, ReadsWithin tokens k .bindings (p + 2) q ∧ kindAt tokens q = some .rightParen := by
  obtain ⟨r, h⟩ := h
  cases h with
  | letForm _ opening bindings closing => exact ⟨opening, _, rfl, _, bindings, closing⟩
  | _ => grind [kindAt_of_functionAt, letName, lambdaName]

theorem lambdaBody (h : Readable tokens n .primary p)
    (name : functionAt tokens p = some lambdaName) :
    kindAt tokens (p + 1) = some .leftParen ∧ kindAt tokens (p + 2) = some .identifier ∧
      kindAt tokens (p + 3) = some .comma ∧ ∃ k, n = k + 1 ∧
        ∃ q, ReadsWithin tokens k .expression (p + 4) q ∧ kindAt tokens q = some .rightParen := by
  obtain ⟨r, h⟩ := h
  cases h with
  | lambdaForm _ opening parameter comma body closing =>
    exact ⟨opening, parameter, comma, _, rfl, _, body, closing⟩
  | _ => grind [kindAt_of_functionAt, letName, lambdaName]

theorem inner (h : Readable tokens n .primary p) (kind : kindAt tokens p = some .leftParen) :
    ∃ k, n = k + 1 ∧
      ∃ q, ReadsWithin tokens k .expression (p + 1) q ∧ kindAt tokens q = some .rightParen := by
  obtain ⟨r, h⟩ := h
  cases h with
  | parenthesized _ inner closing => exact ⟨_, rfl, _, inner, closing⟩
  | _ => grind [kindAt_of_functionAt]

/-- A primary starts with a token of one of six kinds. -/
theorem opens (h : Readable tokens n .primary p) {kind : TokenKind}
    (hk : kindAt tokens p = some kind) :
    kind = .number ∨ kind = .string ∨ kind = .leftBrace ∨ kind = .identifier ∨ kind = .function ∨
      kind = .leftParen := by
  obtain ⟨r, h⟩ := h
  cases h <;> grind [kindAt_of_functionAt]

/-! Lists and bindings. -/

theorem item (h : Readable tokens n (.list closing) p) (notEmpty : kindAt tokens p ≠ some closing) :
    Readable tokens n .expression p := by
  obtain ⟨r, h⟩ := h
  cases h with
  | emptyList kind => exact absurd kind notEmpty
  | list _ first _ _ => exact ⟨_, first⟩

theorem others (h : Readable tokens n (.list closing) p)
    (notEmpty : kindAt tokens p ≠ some closing) (first : ReadsWithin tokens m .expression p q) :
    ∃ r, ReadsWithin tokens n .others q r ∧ kindAt tokens r = some closing := by
  obtain ⟨s, h⟩ := h
  cases h with
  | emptyList kind => exact absurd kind notEmpty
  | list _ first' others kind =>
    cases first.eq_end first'
    exact ⟨_, others, kind⟩

theorem nextItem (h : Readable tokens n .others p) (next : kindAt tokens p = some .comma) :
    Readable tokens n .expression (p + 1) := by
  obtain ⟨r, h⟩ := h
  cases h with
  | noOthers next' => exact absurd next next'
  | others _ item _ => exact ⟨_, item⟩

theorem moreOthers (h : Readable tokens n .others p) (next : kindAt tokens p = some .comma)
    (item : ReadsWithin tokens m .expression (p + 1) q) : Readable tokens n .others q := by
  obtain ⟨r, h⟩ := h
  cases h with
  | noOthers next' => exact absurd next next'
  | others _ item' rest =>
    cases item.eq_end item'
    exact ⟨_, rest⟩

theorem body (h : Readable tokens n .bindings p) (next : ¬ BindingAt tokens p) :
    Readable tokens n .expression p := by
  obtain ⟨r, h⟩ := h
  cases h with
  | body _ body => exact ⟨_, body⟩
  | binding next' _ _ _ | lastBinding next' _ _ _ => exact absurd next' next

theorem value (h : Readable tokens n .bindings p) (next : BindingAt tokens p) :
    Readable tokens n .expression (p + 2) := by
  obtain ⟨r, h⟩ := h
  cases h with
  | body next' _ => exact absurd next next'
  | binding _ value _ _ | lastBinding _ value _ _ => exact ⟨_, value⟩

theorem moreBindings (h : Readable tokens n .bindings p) (next : BindingAt tokens p)
    (value : ReadsWithin tokens m .expression (p + 2) q) (comma : kindAt tokens q = some .comma) :
    Readable tokens n .bindings (q + 1) := by
  obtain ⟨r, h⟩ := h
  cases h with
  | body next' _ => exact absurd next next'
  | binding _ value' _ rest =>
    cases value.eq_end value'
    exact ⟨_, rest⟩
  | lastBinding _ value' noComma _ =>
    cases value.eq_end value'
    exact absurd comma noComma

theorem lastBody (h : Readable tokens n .bindings p) (next : BindingAt tokens p)
    (value : ReadsWithin tokens m .expression (p + 2) q) (noComma : kindAt tokens q ≠ some .comma) :
    Readable tokens n .expression q := by
  obtain ⟨r, h⟩ := h
  cases h with
  | body next' _ => exact absurd next next'
  | binding _ value' comma _ =>
    cases value.eq_end value'
    exact absurd comma noComma
  | lastBinding _ value' _ body =>
    cases value.eq_end value'
    exact ⟨_, body⟩

end Readable

end

end Quarterly.Formula
