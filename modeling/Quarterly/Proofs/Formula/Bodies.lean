import Quarterly.Proofs.Formula.Family
import Quarterly.Proofs.Formula.Run

/-!
# Readings of lambda bodies

A live reading reads the body of a lambda dry, for its end, and live for every call. To see what
these readings contribute to the whole, something else is put in their place: a reading through
other bodies. A family of bodies makes a family of readings.
-/

namespace Quarterly.Formula

/-- What is put in the place of the readings of lambda bodies. -/
structure Bodies where
  /-- In the place of the dry reading that finds the end. -/
  skipped : Eval Value → Eval Value
  /-- In the place of the live reading that a call makes. -/
  called : Eval Value → Eval Value

/-- The readings themselves. -/
def Bodies.plain : Bodies := ⟨id, id⟩

/-- Read an expression through other bodies. -/
def expressionThrough (bodies : Bodies) : Nat → Mode → Scope → Eval Value
  | depth, .dry, scope => bodies.skipped (expression depth .dry scope)
  | 0, .live, _ => tooDeep
  | 1, .live, scope =>
    Rule.compared
      { expression := expressionThrough bodies 0
        body := fun scope => bodies.called (expressionThrough bodies 0 .live scope) } .live scope
  | depth + 2, .live, scope =>
    Rule.compared
      { expression := expressionThrough bodies (depth + 1)
        body := fun scope => bodies.called (expressionThrough bodies depth .live scope) }
      .live scope

/-- One level of a reading. -/
theorem expressionThrough_succ (bodies : Bodies) (depth : Nat) (scope : Scope) :
    expressionThrough bodies (depth + 1) .live scope =
      Rule.compared
        { expression := expressionThrough bodies depth
          body := fun scope => bodies.called (expressionThrough bodies (depth - 1) .live scope) }
        .live scope := by
  cases depth <;> rfl

theorem expressionThrough_plain (depth : Nat) (mode : Mode) (scope : Scope) :
    expressionThrough .plain depth mode scope = expression depth mode scope := by
  match depth, mode with
  | _, .dry =>
    rw [expressionThrough]
    rfl
  | 0, .live => rfl
  | depth + 1, .live =>
    have nested : expressionThrough .plain depth = expression depth := by
      funext mode scope
      exact expressionThrough_plain depth mode scope
    have body : expressionThrough .plain (depth - 1) .live = expression (depth - 1) .live := by
      funext scope
      exact expressionThrough_plain (depth - 1) .live scope
    rw [expressionThrough_succ, nested, body]
    cases depth <;> rfl

/-- Read all tokens live through other bodies. -/
def readAllThrough (bodies : Bodies) (depth : Nat) (scope : Scope) : Eval Value := do
  let value ← expressionThrough bodies depth .live scope
  let token ← Eval.peek
  if token.kind ≠ .endMark then throw (.malformed (.unexpected token.text) token.position)
  return value

theorem readAllThrough_plain (depth : Nat) (scope : Scope) :
    readAllThrough .plain depth scope = readAll depth .live scope := by
  rw [readAllThrough, expressionThrough_plain, readAll]

/-! ### Families -/

namespace FamilyLogic

variable {ι : Type} (L : FamilyLogic ι) {bodies : ι → Bodies}
  (skipped : ∀ depth scope, L.Holds fun i => (bodies i).skipped (expression depth .dry scope))
  (called : ∀ {m : ι → Eval Value}, L.Holds m → L.Holds fun i => (bodies i).called (m i))

include skipped called

theorem expressionThrough (depth : Nat) (mode : Mode) (scope : Scope) :
    L.Holds fun i => Formula.expressionThrough (bodies i) depth mode scope := by
  match depth, mode with
  | _, .dry =>
    simp only [Formula.expressionThrough]
    exact skipped _ _
  | 0, .live => exact L.const tooDeep
  | depth + 1, .live =>
    let nested (i : ι) : Nested :=
      { expression := Formula.expressionThrough (bodies i) depth
        body := fun scope =>
          (bodies i).called (Formula.expressionThrough (bodies i) (depth - 1) .live scope) }
    have expression : ∀ mode scope, L.Holds fun i => (nested i).expression mode scope :=
      fun mode scope => expressionThrough depth mode scope
    have body : ∀ scope, L.Holds fun i => (nested i).body scope :=
      fun scope => called (expressionThrough (depth - 1) .live scope)
    simp only [expressionThrough_succ]
    exact L.compared expression body .live scope

theorem readAllThrough (depth : Nat) (scope : Scope) :
    L.Holds fun i => Formula.readAllThrough (bodies i) depth scope :=
  L.before (L.expressionThrough skipped called depth .live scope)

end FamilyLogic

end Quarterly.Formula
