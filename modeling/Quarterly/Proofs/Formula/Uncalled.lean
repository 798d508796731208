import Quarterly.Proofs.Formula.Bodies
import Quarterly.Proofs.Formula.Skipping

/-!
# Lambdas that nothing calls

A dry reading leaves nothing behind but the place where it ends, so a reading goes on after it as
if nothing had been skipped. Where no lambda is called, then, nothing is recorded inside the body of
one: the evaluation comes to the same when all records made inside bodies are thrown away.

Whether a lambda is called is found out by refusing calls. A reading either never gets to a call,
and then it does not matter what calls do, or it ends at the first call with the refusal.
-/

namespace Quarterly.Formula

/-! ### Records thrown away -/

/-- A computation whose records are thrown away, also when it faults. -/
def unrecorded {α : Type} (m : Eval α) : Eval α := fun c s =>
  match m c s with
  | .ok a s' => .ok a { s' with journal := s.journal }
  | .error fault s' => .error fault { s' with journal := s.journal }

/-- A dry reading makes no records that could be thrown away. -/
theorem unrecorded_dry (depth : Nat) (scope : Scope) :
    unrecorded (expression depth .dry scope) = expression depth .dry scope := by
  funext c s
  have same := journal_of_dry depth scope c s
  unfold unrecorded
  cases hr : expression depth .dry scope c s with
  | ok v s' =>
    rw [hr] at same
    rw [← same]
    rfl
  | error fault s' =>
    rw [hr] at same
    rw [← same]
    rfl

/-- What follows a skipped body runs from the state before it. -/
theorem run_skip_then {α : Type} (depth : Nat) (body : Scope → Eval Value) (scope : Scope)
    (later : Nat → Scope → Eval α) (c : Context) (s : State) :
    (Rule.skip { expression := expression depth, body } scope >>=
        fun stop => later stop scope) c s =
      match expression depth .dry scope c s with
      | .ok _ s' => later s'.position scope c s
      | .error fault s' => .error fault { s with nextIdentity := s'.nextIdentity } := by
  have same := journal_of_dry depth scope c s
  rw [run_bind, run_skip]
  dsimp only
  cases hr : expression depth .dry scope c s with
  | ok v s' =>
    rw [hr] at same
    change s'.journal = s.journal at same
    simp only [same]
  | error fault s' =>
    rw [hr] at same
    change s'.journal = s.journal at same
    simp only [same]

/-! ### Calls -/

/-- Bodies that are skipped as ever. Only the calls may differ. -/
structure CallBodies extends Bodies where
  skips : ∀ depth scope,
    skipped (expression depth .dry scope) = expression depth .dry scope

namespace CallBodies

def plain : CallBodies where
  toBodies := .plain
  skips _ _ := rfl

/-- Every call is refused with the given fault. -/
def refused (fault : Fault) : CallBodies where
  skipped := id
  called _ := throw fault
  skips _ _ := rfl

/-- The records made inside bodies are thrown away. -/
def unrecorded : CallBodies where
  skipped := Formula.unrecorded
  called := Formula.unrecorded
  skips := unrecorded_dry

end CallBodies

/-- The live evaluation calls no lambda: it does not end with the refusal when calls are refused. -/
def CallsNoLambda (c : Context) (scope : Scope) : Prop :=
  ∃ fault, ∀ s, readAllThrough (CallBodies.refused fault).toBodies c.maxDepth.toNat scope c
    (.start scope) ≠ .error fault s

/-- A family of computations that get to a call for all bodies or for none. -/
def CallsOrNot {α : Type} (m : CallBodies → Eval α) : Prop :=
  ∀ c s, (∀ bodies, m bodies c s = m .plain c s) ∨
    ∀ fault, ∃ s', m (.refused fault) c s = .error fault s'

namespace CallsOrNot

variable {α β : Type}

theorem const (m : Eval α) : CallsOrNot fun _ => m := fun _ _ => .inl fun _ => rfl

theorem bind {m : CallBodies → Eval α} {f : CallBodies → α → Eval β} (hm : CallsOrNot m)
    (hf : ∀ a, CallsOrNot fun bodies => f bodies a) :
    CallsOrNot fun bodies => m bodies >>= f bodies := by
  intro c s
  simp only [run_bind]
  rcases hm c s with same | refused
  · simp only [same]
    cases m .plain c s with
    | ok a s' => exact hf a c s'
    | error fault s' => exact .inl fun _ => rfl
  · right
    intro fault
    obtain ⟨s', hr⟩ := refused fault
    exact ⟨s', by rw [hr]⟩

theorem elsewhere {start : Nat} {m : CallBodies → Eval α} (hm : CallsOrNot m) :
    CallsOrNot fun bodies => Eval.elsewhere start (m bodies) := by
  intro c s
  unfold Eval.elsewhere
  rcases hm c { s with position := start } with same | refused
  · left
    intro bodies
    simp only [same]
  · right
    intro fault
    obtain ⟨s', hr⟩ := refused fault
    exact ⟨{ s' with position := s.position }, by simp only [hr]⟩

/-- A call gets to a call. -/
theorem called (m : CallBodies → Eval Value) :
    CallsOrNot fun bodies => bodies.called (m bodies) :=
  fun _ s => .inr fun _ => ⟨s, rfl⟩

def logic : FamilyLogic CallBodies := ⟨CallsOrNot, const, bind, elsewhere⟩

theorem readAllThrough (depth : Nat) (scope : Scope) :
    CallsOrNot fun bodies => Formula.readAllThrough bodies.toBodies depth scope := by
  refine logic.readAllThrough (fun depth scope => ?_) (fun {m} _ => called m) depth scope
  simp only [CallBodies.skips]
  exact const _

end CallsOrNot

/-- What calls do is of no matter where no lambda is called. -/
theorem CallsNoLambda.readAllThrough {c : Context} {scope : Scope} (h : CallsNoLambda c scope)
    (bodies : CallBodies) :
    readAllThrough bodies.toBodies c.maxDepth.toNat scope c (.start scope) =
      readAll c.maxDepth.toNat .live scope c (.start scope) := by
  obtain ⟨fault, notRefused⟩ := h
  rcases CallsOrNot.readAllThrough c.maxDepth.toNat scope c (.start scope) with same | refused
  · calc
      _ = Formula.readAllThrough .plain c.maxDepth.toNat scope c (.start scope) := same bodies
      _ = readAll c.maxDepth.toNat .live scope c (.start scope) := by rw [readAllThrough_plain]
  · obtain ⟨s, hr⟩ := refused fault
    exact absurd hr (notRefused s)

/-! ### The frame of a skipped body -/

/-- Reading dry records nothing, from any place, in any scope and at any depth, whether it comes
back or faults; what follows a skipped body in its scope runs as if nothing had been skipped; and
where no lambda is called, an evaluation is what it is without the records made inside bodies. -/
theorem skipping_records_nothing (c : Context) :
    (∀ depth scope s, (endState (expression depth .dry scope c s)).journal = s.journal) ∧
    (∀ (α : Type) depth body scope s (later : Nat → Scope → Eval α),
      (Rule.skip { expression := expression depth, body } scope >>=
          fun stop => later stop scope) c s =
        match expression depth .dry scope c s with
        | .ok _ s' => later s'.position scope c s
        | .error fault s' => .error fault { s with nextIdentity := s'.nextIdentity }) ∧
    ∀ scope, CallsNoLambda c scope →
      evaluate c .live scope = .ofEnd
        (readAllThrough ⟨unrecorded, unrecorded⟩ c.maxDepth.toNat scope c (.start scope)) := by
  refine ⟨fun depth scope s => journal_of_dry depth scope c s,
    fun _ depth body scope s later => run_skip_then depth body scope later c s,
    fun scope h => ?_⟩
  rw [evaluate_eq]
  exact congrArg Evaluation.ofEnd (h.readAllThrough .unrecorded).symm

/-- An array of a reference and a lambda with a reference and an unknown call in its body. -/
def uncalled : Context where
  formula := "\x7bSales,LAMBDA(x,Sales[Q2]*FOO(x))\x7d".toList
  tokens := #[⟨.leftBrace, "\x7b", 0⟩, ⟨.identifier, "Sales", 1⟩, ⟨.comma, ",", 6⟩,
    ⟨.function, "LAMBDA", 7⟩, ⟨.leftParen, "(", 13⟩, ⟨.identifier, "x", 14⟩, ⟨.comma, ",", 15⟩,
    ⟨.identifier, "Sales", 16⟩, ⟨.leftBracket, "[", 21⟩, ⟨.identifier, "Q2", 22⟩,
    ⟨.rightBracket, "]", 24⟩, ⟨.operator, "*", 25⟩, ⟨.identifier, "FOO", 26⟩,
    ⟨.leftParen, "(", 29⟩, ⟨.identifier, "x", 30⟩, ⟨.rightParen, ")", 31⟩,
    ⟨.rightParen, ")", 32⟩, ⟨.rightBrace, "\x7d", 33⟩, ⟨.endMark, "", 34⟩]
  table :=
    { cells := [("2024-Q2", [("Sales", some 50)]), ("2024-Q1", [("Sales", some 40)])]
      quarters := ["2024-Q2", "2024-Q1"], windowSize := 2 }
  tracing := true

theorem skipping_records_nothing_uncalled :
    CallsNoLambda uncalled [] ∧
      evaluate uncalled .live [] =
        .ofEnd (readAllThrough ⟨unrecorded, unrecorded⟩ 64 [] uncalled (.start [])) ∧
      (evaluate uncalled .live []).journal.referenced = #["2024-Q1"] := by
  have ends : stopOf (readAllThrough (CallBodies.refused .pastLastToken).toBodies 64 []) uncalled
      (.start []) = some 18 := by decide +kernel
  have callsNone : CallsNoLambda uncalled [] := by
    refine ⟨.pastLastToken, fun s hs => ?_⟩
    obtain ⟨v, s', hr, -⟩ := ok_of_stopOf ends
    cases hr.symm.trans hs
  have referenced : (evaluate uncalled .live []).journal.referenced = #["2024-Q1"] := by
    decide +kernel
  exact ⟨callsNone, (skipping_records_nothing uncalled).2.2 [] callsNone, referenced⟩

end Quarterly.Formula
