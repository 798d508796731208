import Quarterly.Proofs.Formula.Invariant
import Quarterly.Proofs.Formula.Placed
import Quarterly.Proofs.Formula.Run

/-!
# Agreement of a reading with an evaluation of a tree

A reading does more than the evaluation of the tree it passes over: it moves through the tokens and
writes a journal. What both keep account of are identities and the quarters looked at. A reading
agrees with an evaluation if it comes to the same value or fault with the same account; some faults
of the reading are excused. Steps that only move on or note something have no counterpart on the
other side.
-/

namespace Quarterly.Formula

/-- What a state has in common with the evaluation of a tree. -/
def State.ledger (s : State) : Ledger := ⟨s.nextIdentity, s.journal.referenced⟩

/-! ### Steps without counterpart -/

/-- Runs from one token come back at another with a given result and an unchanged account. -/
def Steps (c : Context) {α : Type} (p q : Nat) (m : Eval α) (a : α) : Prop :=
  ∀ s : State, s.position = p → ∃ s', m c s = .ok a s' ∧ s'.position = q ∧ s'.ledger = s.ledger

namespace Steps

variable {c : Context} {α β : Type} {p q : Nat}

theorem pure (a : α) : Steps c p p (pure a) a := fun s hs => ⟨s, rfl, hs, rfl⟩

theorem bind {r : Nat} {m : Eval α} {f : α → Eval β} {a : α} {b : β} (hm : Steps c p q m a)
    (hf : Steps c q r (f a) b) : Steps c p r (m >>= f) b := by
  intro s hs
  obtain ⟨s', hr, hq, hl⟩ := hm s hs
  obtain ⟨s'', hr', hq', hl'⟩ := hf s' hq
  refine ⟨s'', ?_, hq', hl'.trans hl⟩
  rw [run_bind, hr]
  exact hr'

theorem position : Steps c p p Eval.position p := by
  rintro s rfl
  exact ⟨s, rfl, rfl, rfl⟩

theorem setPosition : Steps c p q (Eval.setPosition q) () := fun _ _ => ⟨_, rfl, rfl, rfl⟩

theorem tokensLeft : Steps c p p Eval.tokensLeft (c.tokens.size - p) := by
  rintro s rfl
  exact ⟨s, rfl, rfl, rfl⟩

theorem read : Steps c p p (read : Eval Context) c := fun s hs => ⟨s, rfl, hs, rfl⟩

theorem noteStep {mode : Mode} {step : Step} : Steps c p p (Eval.noteStep mode step) () := by
  intro s hs
  refine ⟨_, run_noteStep c s mode step, hs, ?_⟩
  unfold State.ledger Journal.stepped
  dsimp only
  split <;> rfl

theorem notice {n : Notice} : Steps c p p (Eval.notice n) () :=
  fun s hs => ⟨_, run_notice c s n, hs, rfl⟩

section

variable {token : Token} (ht : c.tokens[p]? = some token)

include ht

theorem peek : Steps c p p Eval.peek token := by
  refine bind position fun s hs => ⟨s, ?_, hs, rfl⟩
  rw [run_tokenAt, ht]

theorem advance (notEnd : token.kind ≠ .endMark) : Steps c p (p + 1) Eval.advance token := by
  refine bind (peek ht) ?_
  simp only [if_pos notEnd]
  exact bind position (bind setPosition (pure token))

theorem expect {problem : SyntaxFault} (notEnd : token.kind ≠ .endMark) :
    Steps c p (p + 1) (Eval.expect token.kind problem) token := by
  refine bind (peek ht) ?_
  rw [if_pos rfl]
  exact advance ht notEnd

theorem operator? {γ : Type} {ofSymbol? : String → Option γ} :
    Steps c p p (Eval.operator? ofSymbol?) ((operatorAt c.tokens p).bind ofSymbol?) := by
  have hop : (operatorAt c.tokens p).bind ofSymbol? =
      if token.kind = .operator then ofSymbol? token.text else none := by
    by_cases hk : token.kind = .operator <;> simp [operatorAt, ht, hk]
  rw [hop]
  exact bind (peek ht) (pure _)

theorem not_acceptOperator {symbol : String} (other : operatorAt c.tokens p ≠ some symbol) :
    Steps c p p (Eval.acceptOperator symbol) false := by
  refine bind (peek ht) ?_
  rw [if_neg]
  · exact pure false
  · rintro ⟨hk, rfl⟩
    exact other (by simp [operatorAt, ht, hk])

theorem not_accept {kind : TokenKind} (other : kindAt c.tokens p ≠ some kind) :
    Steps c p p (Eval.accept kind) false := by
  refine bind (peek ht) ?_
  rw [if_neg]
  · exact pure false
  · rintro rfl
    exact other (by simp [kindAt, ht])

end

theorem accept {kind : TokenKind} (hk : kindAt c.tokens p = some kind)
    (notEnd : kind ≠ .endMark) : Steps c p (p + 1) (Eval.accept kind) true := by
  obtain ⟨token, ht, rfl⟩ := Option.map_eq_some_iff.mp hk
  refine bind (peek ht) ?_
  rw [if_pos rfl]
  exact bind (advance ht notEnd) (pure true)

theorem acceptOperator {symbol : String} (ho : operatorAt c.tokens p = some symbol) :
    Steps c p (p + 1) (Eval.acceptOperator symbol) true := by
  obtain ⟨token, ht, hs⟩ := Option.bind_eq_some_iff.mp ho
  obtain ⟨hk, rfl⟩ : token.kind = .operator ∧ token.text = symbol := by
    simpa using hs
  refine bind (peek ht) ?_
  rw [if_pos ⟨hk, rfl⟩]
  exact bind (advance ht (by simp [hk])) (pure true)

end Steps

/-! ### Agreement -/

/-- Runs from a token come to the same value or fault as an evaluation of a tree, with the same
account, unless they fault in an excused way. -/
def Agrees (c : Context) (excused : Fault → Prop) {α : Type} (p : Nat) (Q : α → Nat → Prop)
    (m : Eval α) (r : Reckoning α) : Prop :=
  ∀ s : State, s.position = p → match m c s with
    | .ok a s' => r c.table s.ledger = .ok a s'.ledger ∧ Q a s'.position
    | .error fault s' => excused fault ∨ r c.table s.ledger = .error fault s'.ledger

namespace Reckoning

variable {α β : Type}

theorem run_bind (r : Reckoning α) (f : α → Reckoning β) (table : Metric.Table Float)
    (l : Ledger) : (r >>= f) table l = match r table l with
      | .ok a l' => f a table l'
      | .error fault l' => .error fault l' := by
  change EStateM.bind (r table) (fun a => f a table) l = _
  unfold EStateM.bind
  cases r table l <;> rfl

theorem run_lookup (metric : String) (index : Int) (table : Metric.Table Float) (l : Ledger) :
    lookup metric index table l =
      .ok (lookupValue (table.resolve metric index))
        { l with referenced := l.referenced ++ (table.resolve metric index).quarter.toArray } :=
  rfl

end Reckoning

namespace Agrees

variable {c : Context} {excused : Fault → Prop} {α β : Type} {p q : Nat}

theorem pure {Q : α → Nat → Prop} {a : α} (h : Q a p) :
    Agrees c excused p Q (pure a) (pure a) := by
  rintro s rfl
  exact ⟨rfl, h⟩

theorem bind {R : α → Nat → Prop} {Q : β → Nat → Prop} {m : Eval α} {f : α → Eval β}
    {r : Reckoning α} {g : α → Reckoning β} (hm : Agrees c excused p R m r)
    (hf : ∀ a q, R a q → Agrees c excused q Q (f a) (g a)) :
    Agrees c excused p Q (m >>= f) (r >>= g) := by
  intro s hs
  have run := hm s hs
  rw [run_bind, Reckoning.run_bind]
  cases h : m c s with
  | ok a s' =>
    rw [h] at run
    rw [run.1]
    exact hf a s'.position run.2 s' rfl
  | error fault s' =>
    rw [h] at run
    rcases run with hx | hr
    · exact .inl hx
    · exact .inr (by rw [hr])

/-- A step on the left only. -/
theorem step {Q : β → Nat → Prop} {m : Eval α} {f : α → Eval β} {r : Reckoning β} {a : α}
    (hm : Steps c p q m a) (hf : Agrees c excused q Q (f a) r) :
    Agrees c excused p Q (m >>= f) r := by
  intro s hs
  obtain ⟨s', hr, hq, hl⟩ := hm s hs
  rw [run_bind, hr, ← hl]
  exact hf s' hq

section

variable {Q : β → Nat → Prop} {w : Word} {f : Token → Eval β} {r : Reckoning β}
  (h : wordAt c.tokens p = some w)

include h

/-- The word that is next is known. -/
theorem peek (hf : ∀ token, token.word = w → Agrees c excused p Q (f token) r) :
    Agrees c excused p Q (Eval.peek >>= f) r := by
  obtain ⟨token, ht, hw⟩ := Option.map_eq_some_iff.mp h
  exact step (Steps.peek ht) (hf token hw)

theorem advance (notEnd : w.kind ≠ .endMark)
    (hf : ∀ token, token.word = w → Agrees c excused (p + 1) Q (f token) r) :
    Agrees c excused p Q (Eval.advance >>= f) r := by
  obtain ⟨token, ht, hw⟩ := Option.map_eq_some_iff.mp h
  have kind : token.kind = w.kind := congrArg Word.kind hw
  exact step (Steps.advance ht (kind ▸ notEnd)) (hf token hw)

theorem expect {problem : SyntaxFault} (notEnd : w.kind ≠ .endMark)
    (hf : ∀ token, token.word = w → Agrees c excused (p + 1) Q (f token) r) :
    Agrees c excused p Q (Eval.expect w.kind problem >>= f) r := by
  obtain ⟨token, ht, hw⟩ := Option.map_eq_some_iff.mp h
  have kind : token.kind = w.kind := congrArg Word.kind hw
  rw [← kind]
  exact step (Steps.expect ht (kind ▸ notEnd)) (hf token hw)

end

/-- A computation on the left only, which may fault in an excused way. -/
theorem before {Q : β → Nat → Prop} {m : Eval α} {f : α → Eval β} {r : Reckoning β} {a : α}
    (hm : Agrees c excused p (fun b q' => b = a ∧ q' = q) m (Pure.pure a))
    (hf : Agrees c excused q Q (f a) r) : Agrees c excused p Q (m >>= f) r := by
  rw [← pure_bind a fun _ => r]
  refine bind hm ?_
  rintro _ q ⟨rfl, rfl⟩
  exact hf

/-- What comes last on the left has no counterpart. -/
theorem after {R Q : α → Nat → Prop} {m : Eval α} {f : α → Eval α} {r : Reckoning α}
    (hm : Agrees c excused p R m r)
    (hf : ∀ a q, R a q → Agrees c excused q Q (f a) (Pure.pure a)) :
    Agrees c excused p Q (m >>= f) r := by
  rw [← bind_pure r]
  exact bind hm hf

theorem mono {R Q : α → Nat → Prop} {m : Eval α} {r : Reckoning α}
    (h : Agrees c excused p R m r) (imp : ∀ a q, R a q → Q a q) : Agrees c excused p Q m r := by
  intro s hs
  have run := h s hs
  cases hm : m c s with
  | ok a s' =>
    rw [hm] at run
    exact ⟨run.1, imp _ _ run.2⟩
  | error fault s' =>
    rw [hm] at run
    exact run

theorem excuse {Q : α → Nat → Prop} {m : Eval α} {r : Reckoning α}
    (h : ∀ s, ∃ fault s', m c s = .error fault s' ∧ excused fault) :
    Agrees c excused p Q m r := by
  intro s _
  obtain ⟨fault, s', hm, hx⟩ := h s
  rw [hm]
  exact .inl hx

/-- A reading from another token. -/
theorem elsewhere {start : Nat} {R : α → Nat → Prop} {Q : β → Nat → Prop} {inner : Eval α}
    {f : α × Nat → Eval β} {r : Reckoning α} {g : α → Reckoning β}
    (hi : Agrees c excused start R inner r)
    (hf : ∀ a stop, R a stop → Agrees c excused p Q (f (a, stop)) (g a)) :
    Agrees c excused p Q (Eval.elsewhere start inner >>= f) (r >>= g) := by
  intro s hs
  have run := hi { s with position := start } rfl
  rw [run_bind, Reckoning.run_bind]
  unfold Eval.elsewhere
  cases h : inner c { s with position := start } with
  | ok a s' =>
    rw [h] at run
    have same : r c.table s.ledger = .ok a s'.ledger := run.1
    rw [same]
    exact hf a s'.position run.2 { s' with position := s.position } hs
  | error fault s' =>
    rw [h] at run
    rcases run with hx | hr
    · exact .inl hx
    · have same : r c.table s.ledger = .error fault s'.ledger := hr
      exact .inr (by rw [same]; rfl)

theorem orFault {x : Except Fault α} :
    Agrees c excused p (fun a q => x = .ok a ∧ q = p) (Eval.orFault x) (Reckoning.orFault x) := by
  cases x with
  | ok a => exact pure ⟨rfl, rfl⟩
  | error fault => exact fun s _ => .inr rfl

theorem orNumericFault {x : Except NumericFault α} :
    Agrees c excused p (fun a q => x = .ok a ∧ q = p) (Eval.orNumericFault x)
      (Reckoning.orNumericFault x) := by
  cases x with
  | ok a => exact pure ⟨rfl, rfl⟩
  | error cause => exact fun s _ => .inr rfl

theorem newIdentity :
    Agrees c excused p (fun _ q => q = p) Eval.newIdentity Reckoning.newIdentity := by
  rintro s rfl
  exact ⟨rfl, rfl⟩

theorem newArray {P : Lambda → Prop} {items : List Value} (h : ∀ v ∈ items, v.EveryLambda P) :
    Agrees c excused p (fun v q => q = p ∧ v.EveryLambda P) (Eval.newArray items)
      (Reckoning.newArray items) :=
  bind newIdentity fun _ _ hq => pure ⟨hq, .array h⟩

theorem ofAnswer {P : Lambda → Prop} {answer : Answer}
    (h : ∀ v ∈ answer.values, v.EveryLambda P) :
    Agrees c excused p (fun v q => q = p ∧ v.EveryLambda P) (Eval.ofAnswer answer)
      (Reckoning.ofAnswer answer) := by
  cases answer with
  | value v => exact pure ⟨rfl, h v (by simp [Answer.values])⟩
  | newArray items => exact newArray h

theorem lookup {P : Lambda → Prop} {metric : String} {index : Int} {reference : String} :
    Agrees c excused p (fun v q => q = p ∧ v.EveryLambda P)
      (Rule.lookup .live metric index reference) (Reckoning.lookup metric index) := by
  rintro s rfl
  rw [run_lookup_live, Reckoning.run_lookup]
  refine ⟨?_, rfl, .scalar (isScalar_lookupValue _)⟩
  unfold State.ledger
  rw [Journal.referenced_lookedUp]

end Agrees

end Quarterly.Formula
