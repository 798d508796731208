import Quarterly.Evaluator
import Quarterly.Proofs.Formula.Cursor
import Quarterly.Proofs.Formula.Family
import Quarterly.Proofs.Formula.View

/-!
# Raising the limit

How deep expressions may nest only decides which readings are stopped. A reading that is not stopped
is the same when more levels may be entered: what is nested in it, what it skips and what it calls
has as many more levels to go, and nothing else depends on how many are left. The limit itself is
mentioned by the fault alone that it gives rise to.
-/

namespace Quarterly.Formula

/-- A fault that says that the limit was reached. -/
def Fault.IsTooDeep (fault : Fault) : Prop := ∃ limit, fault = .tooDeep limit

instance : DecidablePred Fault.IsTooDeep
  | .tooDeep limit => isTrue ⟨limit, rfl⟩
  | .malformed .. | .arity .. | .notALambda | .noLambdaCalls | .numeric _ | .notANumeral _
  | .unknownArithmetic _ | .unknownComparison _ | .notInLibrary _ | .pastLastToken =>
    isFalse fun ⟨_, h⟩ => by cases h

/-! ### More levels -/

/-- A computation goes on where another one is stopped by the limit, and is the same everywhere
else. -/
def GoesOn {α : Type} (m : Eval α) (further : Eval α) : Prop :=
  ∀ c s, (∃ fault s', m c s = .error fault s' ∧ fault.IsTooDeep) ∨ further c s = m c s

namespace GoesOn

variable {α β : Type}

theorem refl (m : Eval α) : GoesOn m m := by
  intro c s
  exact .inr rfl

theorem bind {m further : Eval α} {f goOn : α → Eval β} (hm : GoesOn m further)
    (hf : ∀ a, GoesOn (f a) (goOn a)) : GoesOn (m >>= f) (further >>= goOn) := by
  intro c s
  rw [run_bind, run_bind]
  rcases hm c s with ⟨fault, s', hr, deep⟩ | same
  · rw [hr]
    exact .inl ⟨fault, s', rfl, deep⟩
  · rw [same]
    cases m c s with
    | ok a s' => exact hf a c s'
    | error fault s' => exact .inr rfl

theorem elsewhere {start : Nat} {m further : Eval α} (hm : GoesOn m further) :
    GoesOn (Eval.elsewhere start m) (Eval.elsewhere start further) := by
  intro c s
  unfold Eval.elsewhere
  rcases hm c { s with position := start } with ⟨fault, s', hr, deep⟩ | same
  · rw [hr]
    exact .inl ⟨fault, _, rfl, deep⟩
  · rw [same]
    exact .inr rfl

/-- Pairs of readings of which the second goes on where the first is stopped. -/
def logic : FamilyLogic Bool where
  Holds m := GoesOn (m false) (m true)
  const := refl
  bind := bind
  elsewhere := elsewhere

end GoesOn

/-- Readings with more levels go on where readings with fewer levels are stopped. -/
theorem goesOn_expression {depth depth' : Nat} (deeper : depth ≤ depth') (mode : Mode)
    (scope : Scope) : GoesOn (expression depth mode scope) (expression depth' mode scope) := by
  -- Strong induction, as the bodies of called lambdas go down by two levels.
  induction depth using Nat.strongRecOn generalizing depth' mode scope with
  | ind depth ih =>
    match depth, depth', deeper with
    | 0, _, _ =>
      intro c s
      exact .inl ⟨.tooDeep c.maxDepth, s, rfl, c.maxDepth, rfl⟩
    | depth + 1, depth' + 1, deeper =>
      have levels : depth ≤ depth' := by omega
      have bodyLevels : depth - 1 ≤ depth' - 1 := by omega
      let left (more : Bool) : Nat := if more then depth' else depth
      let nested (more : Bool) : Nested :=
        { expression := expression (left more), body := expression (left more - 1) .live }
      have inner : ∀ mode scope, GoesOn.logic.Holds fun i => (nested i).expression mode scope := by
        intro mode scope
        exact ih depth (by omega) levels mode scope
      have body : ∀ scope, GoesOn.logic.Holds fun i => (nested i).body scope := by
        intro scope
        exact ih (depth - 1) (by omega) bodyLevels .live scope
      rw [expression_succ, expression_succ]
      exact GoesOn.logic.compared inner body mode scope

theorem goesOn_readAll {depth depth' : Nat} (deeper : depth ≤ depth') (mode : Mode)
    (scope : Scope) : GoesOn (readAll depth mode scope) (readAll depth' mode scope) := by
  apply (goesOn_expression deeper mode scope).bind
  intro v
  exact .refl _

/-! ### Another limit -/

/-- The same work with another limit. -/
def Context.limited (c : Context) (limit : Int) : Context := { c with maxDepth := limit }

/-- Under another limit everything is the same but for the wording of the fault of reaching it. -/
def Context.relimit (c : Context) (limit : Int) : View c (c.limited limit) where
  journal := id
  StandsFor fault' fault := fault' = fault ∨ fault.IsTooDeep
  tokens := rfl
  formula := rfl
  table := rfl
  same _ := .inl rfl
  tooDeep := .inr ⟨c.maxDepth, rfl⟩
  stepped _ _ _ := rfl
  noticed _ _ := rfl
  lookedUp _ _ _ _ := rfl

/-- An outcome other than that the limit was reached. -/
def Unlimited (outcome : Except Fault Value) : Prop :=
  ∀ fault, outcome = .error fault → ¬ fault.IsTooDeep

instance : DecidablePred Unlimited
  | .ok _ => isTrue fun _ h => by cases h
  | .error fault =>
    if deep : fault.IsTooDeep then isFalse fun h => h fault rfl deep
    else isTrue fun _ h => by
      cases h
      exact deep

/-- An evaluation that does not reach the limit is the same under a higher one. -/
theorem evaluate_limited {c : Context} {mode : Mode} {scope : Scope} {limit : Int}
    (higher : c.maxDepth ≤ limit) (within : Unlimited (evaluate c mode scope).outcome) :
    evaluate (c.limited limit) mode scope = evaluate c mode scope := by
  have levels : c.maxDepth.toNat ≤ (c.limited limit).maxDepth.toNat := by
    change c.maxDepth.toNat ≤ limit.toNat
    omega
  rw [evaluate_eq] at within
  rw [evaluate_eq, evaluate_eq]
  -- First the wording of the limit changes, on as many levels as the higher limit has; then the
  -- levels that the lower limit has not are taken away.
  have seen := (c.relimit limit).readAll (c.limited limit).maxDepth.toNat mode scope (.start scope)
  rcases goesOn_readAll levels mode scope c (.start scope) with ⟨fault, s, hr, deep⟩ | same
  · rw [hr] at within
    exact absurd deep (within _ rfl)
  · rw [same] at seen
    change (c.relimit limit).Ends _ _
      (readAll (c.limited limit).maxDepth.toNat mode scope (c.limited limit) (.start scope)) at seen
    generalize readAll (c.limited limit).maxDepth.toNat mode scope (c.limited limit)
      (.start scope) = there at seen ⊢
    generalize readAll c.maxDepth.toNat mode scope c (.start scope) = here at seen within ⊢
    cases seen with
    | ok _ => rfl
    | error stands =>
      rcases stands with rfl | deep
      · rfl
      · exact absurd deep (within _ rfl)

end Quarterly.Formula

namespace Quarterly

open Formula (Unlimited evaluate)

/-- The same evaluator with another limit. -/
def Evaluator.limited (e : Evaluator) (limit : Int) : Evaluator :=
  { e with settings := { e.settings with maxDepth := limit } }

/-- Whatever is written, in whatever mode and scope: an evaluation that does not reach the limit is
the same under a higher limit, in its value or fault, in the place where it ends and in all that it
notes and notices. An evaluator with a higher limit makes the same report then. -/
theorem evaluate_independent_of_limit :
    (∀ (c : Formula.Context) (mode : Formula.Mode) (scope : Formula.Scope) (limit : Int),
      c.maxDepth ≤ limit → Unlimited (evaluate c mode scope).outcome →
        evaluate (c.limited limit) mode scope = evaluate c mode scope) ∧
    ∀ (e : Evaluator) (written : String) (limit : Int), e.settings.maxDepth ≤ limit →
      Unlimited (evaluate (e.context (Formula.formulaChars written)) .live []).outcome →
        (e.limited limit).evaluate written = e.evaluate written := by
  constructor
  · intro c mode scope limit higher within
    exact Formula.evaluate_limited higher within
  · intro e written limit higher within
    let chars := Formula.formulaChars written
    have same : evaluate ((e.context chars).limited limit) .live [] =
        evaluate (e.context chars) .live [] := Formula.evaluate_limited higher within
    calc (e.limited limit).evaluate written
      _ = e.report (String.ofList chars)
            (evaluate ((e.context chars).limited limit) .live []) := rfl
      _ = e.evaluate written := by
        rw [same]
        rfl

/-- On three levels the mapping comes to a value and the call within a call to a fault that has
nothing to do with levels. -/
theorem evaluate_independent_of_limit_three :
    (Unlimited (evaluate (Formula.mapping.limited 3) .live []).outcome ∧
      evaluate ((Formula.mapping.limited 3).limited 64) .live [] =
        evaluate (Formula.mapping.limited 3) .live []) ∧
    ∃ e : Evaluator, e.settings.maxDepth = 3 ∧
      (e.evaluate "1 + ABS(ABS(1, 2))").notices.map Formula.Notice.message =
        ["[FormulaEvaluator] Could not evaluate '1 + ABS(ABS(1, 2))': ABS requires 1 argument"] ∧
      (e.limited 64).evaluate "1 + ABS(ABS(1, 2))" = e.evaluate "1 + ABS(ABS(1, 2))" := by
  obtain ⟨ofContext, ofEvaluator⟩ := evaluate_independent_of_limit
  let e : Evaluator := ⟨{ maxDepth := 3, collectTrace := true }, [], .ofCells [] [] none⟩
  let call : String := "1 + ABS(ABS(1, 2))"
  have mapping : Unlimited (evaluate (Formula.mapping.limited 3) .live []).outcome := by
    decide +kernel
  have faults : Unlimited (evaluate (e.context (Formula.formulaChars call)) .live []).outcome := by
    decide +kernel
  refine ⟨⟨mapping, ?_⟩, e, rfl, ?_, ?_⟩
  · exact ofContext (Formula.mapping.limited 3) .live [] 64 (by decide) mapping
  · decide +kernel
  · exact ofEvaluator e call 64 (by decide) faults

end Quarterly
