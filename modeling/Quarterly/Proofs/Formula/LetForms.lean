import Quarterly.Proofs.Formula.Validity

/-!
# How a `LET` is closed

A `LET` is meant to have a comma behind each of its values, and a `LET` that has them is closed. But
a value without a comma behind it does not make a formula malformed: what follows is read as the
body, and `LET(a, 1 a)` comes to one. Such a `LET` is open. There is no third way to write a `LET`,
and no `LET` is both; the readings accept both (`let_closed_or_open`).
-/

namespace Quarterly.Formula

section

variable (tokens : Array Token) (n : Nat)

/-- Names and values with a comma behind each name and each value. -/
inductive ClosedPairs : Nat → Nat → Prop where
  | none {p} : ClosedPairs p p
  | pair {p q r} (name : kindAt tokens p = some .identifier)
      (nameComma : kindAt tokens (p + 1) = some .comma)
      (value : ReadsWithin tokens n .expression (p + 2) q)
      (comma : kindAt tokens q = some .comma) (rest : ClosedPairs (q + 1) r) : ClosedPairs p r

/-- Every value has a comma behind it. -/
def ClosedLet (p q : Nat) : Prop :=
  functionAt tokens p = some letName ∧ kindAt tokens (p + 1) = some .leftParen ∧
    ∃ body stop, ClosedPairs tokens n (p + 2) body ∧
      ReadsWithin tokens n .expression body stop ∧
      kindAt tokens stop = some .rightParen ∧ q = stop + 1

/-- Every value but the last one has a comma behind it, and the body follows the last value
directly. -/
def OpenLet (p q : Nat) : Prop :=
  functionAt tokens p = some letName ∧ kindAt tokens (p + 1) = some .leftParen ∧
    ∃ last body stop, ClosedPairs tokens n (p + 2) last ∧
      kindAt tokens last = some .identifier ∧ kindAt tokens (last + 1) = some .comma ∧
      ReadsWithin tokens n .expression (last + 2) body ∧
      ReadsWithin tokens n .expression body stop ∧
      kindAt tokens stop = some .rightParen ∧ q = stop + 1

end

section

variable {tokens : Array Token} {n m p q r : Nat} {phrase : Phrase}

/-! ### Bindings by their pairs -/

/-- Behind closed pairs the bindings go on. -/
theorem ClosedPairs.reads (h : ClosedPairs tokens n p q)
    (rest : ReadsWithin tokens n .bindings q r) : ReadsWithin tokens n .bindings p r := by
  induction h with
  | none => exact rest
  | pair name nameComma value comma _ ih => exact .binding ⟨name, nameComma⟩ value comma (ih rest)

/-- Bindings and a body are closed pairs with the body behind them, or with one more pair that has
no comma between its value and the body. -/
theorem ReadsWithin.pairs (h : ReadsWithin tokens n .bindings p q) :
    (∃ body, ClosedPairs tokens n p body ∧ ReadsWithin tokens n .expression body q) ∨
    ∃ last body, ClosedPairs tokens n p last ∧ BindingAt tokens last ∧
      ReadsWithin tokens n .expression (last + 2) body ∧
      ReadsWithin tokens n .expression body q := by
  generalize shape : Phrase.bindings = phrase at h
  induction h with
  | body _ body => exact .inl ⟨_, .none, body⟩
  | lastBinding next value _ body => exact .inr ⟨_, _, .none, next, value, body⟩
  | binding next value comma _ _ ih =>
    rcases ih shape with ⟨b, pairs, body⟩ | ⟨last, b, pairs, hlast, lastValue, body⟩
    · exact .inl ⟨b, .pair next.1 next.2 value comma pairs, body⟩
    · exact .inr ⟨last, b, .pair next.1 next.2 value comma pairs, hlast, lastValue, body⟩
  | _ => cases shape

/-- What is read at the name of a `LET` is a closed or an open one. -/
theorem readsWithin_letForm_iff (name : functionAt tokens p = some letName) :
    ReadsWithin tokens (n + 1) .primary p q ↔
      ClosedLet tokens n p q ∨ OpenLet tokens n p q := by
  constructor
  · intro h
    cases h with
    | letForm _ opening bindings closing =>
      rcases bindings.pairs with ⟨b, pairs, body⟩ | ⟨last, b, pairs, binds, value, body⟩
      · exact .inl ⟨name, opening, b, _, pairs, body, closing, rfl⟩
      · exact .inr ⟨name, opening, last, b, _, pairs, binds.1, binds.2, value, body, closing, rfl⟩
    | _ => grind [kindAt_of_functionAt, letName, lambdaName]
  · rintro (⟨-, opening, b, stop, pairs, body, closing, rfl⟩ |
      ⟨-, opening, last, b, stop, pairs, lastName, comma, value, body, closing, rfl⟩)
    · have noBinding : ¬ BindingAt tokens b := body.reads.not_bindingAt (by simp [closing])
      exact .letForm name opening (pairs.reads (.body noBinding body)) closing
    · have noComma : kindAt tokens b ≠ some .comma := body.reads.kindAt_ne trivial id
      exact .letForm name opening
        (pairs.reads (.lastBinding ⟨lastName, comma⟩ value noComma body)) closing

/-- Closed pairs in front of a body and closed pairs in front of an open one exclude each other: at
the first place where they differ a value has a comma behind it in one and none in the other. -/
theorem ClosedPairs.not_open {last body stop : Nat} (closed : ClosedPairs tokens n p q)
    (noBinding : ¬ BindingAt tokens q) (pairs : ClosedPairs tokens m p last)
    (binds : BindingAt tokens last) (value : ReadsWithin tokens m .expression (last + 2) body)
    (rest : ReadsWithin tokens m .expression body stop) : False := by
  induction closed with
  | none =>
    cases pairs with
    | none => exact noBinding binds
    | pair name comma _ _ _ => exact noBinding ⟨name, comma⟩
  | pair _ _ value' comma _ ih =>
    cases pairs with
    | none =>
      cases value.eq_end value'
      exact rest.reads.kindAt_ne trivial id comma
    | pair _ _ value'' _ pairs' =>
      cases value'.eq_end value''
      exact ih noBinding pairs'

theorem ClosedLet.not_openLet (h : ClosedLet tokens n p q) : ¬ OpenLet tokens m p r := by
  obtain ⟨-, -, b, stop, pairs, body, closing, -⟩ := h
  rintro ⟨-, -, last, b', stop', pairs', name, comma, value, body', -, -⟩
  have noBinding : ¬ BindingAt tokens b := body.reads.not_bindingAt (by simp [closing])
  exact pairs.not_open noBinding pairs' ⟨name, comma⟩ value body'

/-! ### Every `LET` of a row -/

/-- A list does not end with the name of a function. -/
def Phrase.EndsPlainly (phrase : Phrase) : Prop := phrase ≠ .list .function

theorem Rank.endsPlainly_operand (rank : Rank) : rank.operand.EndsPlainly := by
  cases rank <;> exact Phrase.noConfusion

/-- Wherever the name of a function stands in a phrase, a primary is read. -/
theorem ReadsWithin.primary_of_functionAt (h : ReadsWithin tokens n phrase p q)
    (plain : phrase.EndsPlainly) {i : Nat} {name : String} (here : functionAt tokens i = some name)
    (first : p ≤ i) (last : i < q) : ∃ k stop, ReadsWithin tokens (k + 1) .primary i stop := by
  have kind := kindAt_of_functionAt here
  have elsewhere {j : Nat} {other : TokenKind} (h : kindAt tokens j = some other)
      (isOther : other ≠ .function) : i ≠ j := by
    rintro rfl
    rw [kind] at h
    exact isOther (Option.some.inj h).symm
  induction h with
  | plain _ _ operand | unsigned _ _ _ operand => exact operand nofun first last
  | @comparison _ _ r _ _ _ next _ left right =>
    have sign := elsewhere (kindAt_of_bind_operatorAt next) (by decide)
    rcases Nat.lt_or_ge i r with h | h
    · exact left nofun first h
    · exact right nofun (by omega) last
  | @level _ rank _ r _ _ _ operand rest =>
    rcases Nat.lt_or_ge i r with h | h
    · exact operand rank.endsPlainly_operand first h
    · exact rest nofun h last
  | restEnd | noOthers => omega
  | @restMore _ rank _ r _ _ next _ _ operand rest =>
    have sign := elsewhere (kindAt_of_bind_operatorAt next) (by decide)
    rcases Nat.lt_or_ge i r with h | h
    · exact operand rank.endsPlainly_operand (by omega) h
    · exact rest nofun h last
  | negation next _ operand =>
    have sign := elsewhere (kindAt_of_operatorAt next) (by decide)
    exact operand nofun (by omega) last
  | percent _ _ next operand =>
    have sign := elsewhere (kindAt_of_operatorAt next) (by decide)
    exact operand nofun first (by omega)
  | number kind | string kind | name kind =>
    have token := elsewhere kind (by decide)
    omega
  | array opening _ items =>
    have brace := elsewhere opening (by decide)
    exact items nofun (by omega) last
  | reference kind opening index closing =>
    have name := elsewhere kind (by decide)
    have left := elsewhere opening (by decide)
    have right := elsewhere closing (by decide)
    have inside := index.kind.elim (elsewhere · (by decide)) (elsewhere · (by decide))
    omega
  | unknownCall kind opening _ arguments =>
    have name := elsewhere kind (by decide)
    have paren := elsewhere opening (by decide)
    exact arguments nofun (by omega) last
  | call function noLet noLambda opening arguments items =>
    have paren := elsewhere opening (by decide)
    rcases Nat.eq_or_lt_of_le first with rfl | h
    · exact ⟨_, _, .call function noLet noLambda opening arguments⟩
    · exact items nofun (by omega) last
  | letForm function opening bindings closing inner =>
    have left := elsewhere opening (by decide)
    have right := elsewhere closing (by decide)
    rcases Nat.eq_or_lt_of_le first with rfl | h
    · exact ⟨_, _, .letForm function opening bindings closing⟩
    · exact inner nofun (by omega) (by omega)
  | lambdaForm function opening parameter comma body closing inner =>
    have left := elsewhere opening (by decide)
    have name := elsewhere parameter (by decide)
    have mark := elsewhere comma (by decide)
    have right := elsewhere closing (by decide)
    rcases Nat.eq_or_lt_of_le first with rfl | h
    · exact ⟨_, _, .lambdaForm function opening parameter comma body closing⟩
    · exact inner nofun (by omega) (by omega)
  | parenthesized kind _ closing inner =>
    have left := elsewhere kind (by decide)
    have right := elsewhere closing (by decide)
    exact inner nofun (by omega) (by omega)
  | emptyList kind =>
    have mark := elsewhere kind fun same => plain (same ▸ rfl)
    omega
  | @list _ _ _ r _ _ _ _ kind item others =>
    have mark := elsewhere kind fun same => plain (same ▸ rfl)
    rcases Nat.lt_or_ge i r with h | h
    · exact item nofun first h
    · exact others nofun h (by omega)
  | @others _ _ r _ next _ _ item rest =>
    have mark := elsewhere next (by decide)
    rcases Nat.lt_or_ge i r with h | h
    · exact item nofun (by omega) h
    · exact rest nofun h last
  | body _ _ body => exact body nofun first last
  | @binding _ _ r _ next _ comma _ value rest =>
    have name := elsewhere next.1 (by decide)
    have mark := elsewhere next.2 (by decide)
    have closing := elsewhere comma (by decide)
    rcases Nat.lt_or_ge i r with h | h
    · exact value nofun (by omega) h
    · exact rest nofun (by omega) last
  | @lastBinding _ _ r _ next _ _ _ value body =>
    have name := elsewhere next.1 (by decide)
    have mark := elsewhere next.2 (by decide)
    rcases Nat.lt_or_ge i r with h | h
    · exact value nofun (by omega) h
    · exact body nofun h last

end

/-! ### Closed and open forms in evaluations -/

/-- Every `LET` of a formula that evaluates is closed or open, and not both. A formula is not
malformed for a `LET` that is open: what is read at the name of a `LET` are just the closed and the
open forms, and a row that is read as an expression is never found malformed. -/
theorem let_closed_or_open {c : Context} {scope : Scope} (ends : EndsOnce c.tokens)
    (keeps : (wellFormed c.tokens).Keeps scope) (mode : Mode) :
    (∀ v, (evaluate c mode scope).outcome = .ok v → ∀ p, functionAt c.tokens p = some letName →
      ∃ n q, (ClosedLet c.tokens n p q ∧ ∀ m r, ¬ OpenLet c.tokens m p r) ∨
        (OpenLet c.tokens n p q ∧ ∀ m r, ¬ ClosedLet c.tokens m p r)) ∧
    (∀ n p q, functionAt c.tokens p = some letName →
      (ReadsWithin c.tokens (n + 1) .primary p q ↔
        ClosedLet c.tokens n p q ∨ OpenLet c.tokens n p q)) ∧
    ∀ n, ReadsRow c.tokens n → ∀ problem position,
      (evaluate c mode scope).outcome ≠ .error (.malformed problem position) := by
  refine ⟨?_, ?_, ?_⟩
  · intro v h p name
    have row : ReadsRow c.tokens c.maxDepth.toNat :=
      Discipline.readsRow_of_evaluate (D := wellFormed _) ends trivial keeps h
    have before : p < c.tokens.size - 1 := by
      have next := ends.succ_lt (kindAt_of_functionAt name) (by decide)
      omega
    obtain ⟨n, q, reads⟩ := row.primary_of_functionAt nofun name (Nat.zero_le p) before
    rcases (readsWithin_letForm_iff name).mp reads with closed | isOpen
    · exact ⟨n, q, .inl ⟨closed, fun _ _ => closed.not_openLet⟩⟩
    · exact ⟨n, q, .inr ⟨isOpen, fun _ _ closed => closed.not_openLet isOpen⟩⟩
  · exact fun n p q name => readsWithin_letForm_iff name
  · intro n row problem position malformed
    have refused : (wellFormed c.tokens).RefusesRow _ (.malformed problem position) :=
      Discipline.refusesRow_of_evaluate ends trivial keeps malformed
    exact refused n row

/-- `LET(a, 1 a)`. -/
def openPair : Context where
  formula := "LET(a, 1 a)".toList
  tokens := (tokenize isFunctionName "LET(a, 1 a)").toArray
  table := ⟨[], [], 0⟩

theorem value_openPair : ∃ v, (evaluate openPair .live []).outcome = .ok v :=
  exists_value (by decide +kernel)

theorem not_closedLet_openPair (n q : Nat) : ¬ ClosedLet openPair.tokens n 0 q := by
  rintro ⟨-, -, body, stop, pairs, reads, closing, -⟩
  have binds : BindingAt openPair.tokens 2 := by
    unfold BindingAt
    decide +kernel
  cases pairs with
  | none => exact reads.reads.not_bindingAt (by simp [closing]) binds
  | pair _ _ value comma _ =>
    obtain ⟨v, s, run, stopsAt⟩ := ok_of_stopOf
      (show stopOf (expression 3 .live []) openPair { position := 4 } = some 5 by decide +kernel)
    have one : Reads openPair.tokens .expression 4 s.position := Reads.of_ok run
    rw [stopsAt] at one
    obtain rfl := value.reads.unique one
    have noComma : kindAt openPair.tokens 5 ≠ some .comma := by decide +kernel
    exact noComma comma

theorem let_closed_or_open_openPair :
    EndsOnce openPair.tokens ∧ (wellFormed openPair.tokens).Keeps [] ∧
      (∃ v, (evaluate openPair .live []).outcome = .ok v) ∧
        ∃ n q, OpenLet openPair.tokens n 0 q := by
  have ends : EndsOnce openPair.tokens := endsOnce_tokenize isFunctionName "LET(a, 1 a)"
  obtain ⟨v, returns⟩ := value_openPair
  have name : functionAt openPair.tokens 0 = some letName := by decide +kernel
  obtain ⟨n, q, ⟨closed, -⟩ | ⟨isOpen, -⟩⟩ :=
    (let_closed_or_open ends .nil .live).1 v returns 0 name
  · exact absurd closed (not_closedLet_openPair n q)
  · exact ⟨ends, .nil, ⟨v, returns⟩, n, q, isOpen⟩

/-- Not every `LET` of a formula that evaluates is closed. -/
theorem evaluates_without_closing :
    ¬ ∀ (c : Context), EndsOnce c.tokens → ∀ v, (evaluate c .live []).outcome = .ok v →
      ∀ p, functionAt c.tokens p = some letName → ∃ n q, ClosedLet c.tokens n p q := by
  intro claimed
  have ends : EndsOnce openPair.tokens := endsOnce_tokenize isFunctionName "LET(a, 1 a)"
  obtain ⟨v, returns⟩ := value_openPair
  have name : functionAt openPair.tokens 0 = some letName := by decide +kernel
  obtain ⟨n, q, closed⟩ := claimed openPair ends v returns 0 name
  exact not_closedLet_openPair n q closed

end Quarterly.Formula
