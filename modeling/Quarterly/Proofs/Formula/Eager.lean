import Quarterly.Proofs.Formula.Exact

/-!
# Eager evaluation

Operands, arguments, branches and bound values are evaluated as they come, whatever the other ones
come to. Where nothing makes a lambda, the references with brackets that an evaluation looks up are
therefore the first ones of its tokens: all of them if it comes back, and those in front of the
place where it stops if it faults.
-/

namespace Quarterly.Formula

/-- However an evaluation ends, it has looked up the first of the references with brackets, each
once and in the order in which they stand. -/
theorem exists_looked {c : Context} (telling : c.Telling) :
    ∃ looked, looked <+: groups c.tokens.toList ∧
      (∀ g ∈ looked, ∃ k, Rule.quarterIndex g.inside = .ok k) ∧
      (evaluate c .live []).journal.bracketed = looked.map (·.substitution c) := by
  have account := (referenceAccount telling).evaluate .live rfl
  have along : ∃ q, (referenceAccount telling).leads 0 {} q (evaluate c .live []).journal := by
    cases h : (evaluate c .live []).outcome with
    | ok v =>
      obtain ⟨q, along, _⟩ := account.1 v h
      exact ⟨q, along⟩
    | error fault => exact (account.2 fault h).1
  obtain ⟨q, looked, split, indexed, noted⟩ := along
  rw [List.drop_zero] at split
  exact ⟨looked, ⟨_, split.symm⟩, indexed, by simpa [Journal.bracketed] using noted⟩

/-- Without `LAMBDA`, the references with brackets in a trace are the first of those in the tokens,
in their order, and all of them where the evaluation comes back. -/
theorem looked_up_in_order (e : Evaluator) (written : String)
    (tracing : e.settings.collectTrace = true)
    (noLambda : Lacks (e.context (formulaChars written)).tokens lambdaName) :
    let c := e.context (formulaChars written)
    let references := groups c.tokens.toList
    ∃ trace, (e.evaluate written).trace = some trace ∧
      ∃ looked, looked <+: references ∧
        (∀ g ∈ looked, ∃ k, Rule.quarterIndex g.inside = .ok k) ∧
        trace.substitutions.filter Substitution.isBracketed = looked.map (·.substitution c) ∧
        (trace.substitutions.filter Substitution.isBracketed).map (·.reference) =
          looked.map (·.slice c.formula) ∧
        ∀ v, (evaluate c .live []).outcome = .ok v → looked = references := by
  intro c references
  have tokenized : c.IsTokenized := rfl
  have telling : c.Telling := tokenized.telling tracing noLambda
  have ends : EndsOnce c.tokens := endsOnce_tokenize _ _
  have run : ∃ looked, looked <+: references ∧
      (∀ g ∈ looked, ∃ k, Rule.quarterIndex g.inside = .ok k) ∧
      (evaluate c .live []).journal.bracketed = looked.map (·.substitution c) ∧
      ∀ v, (evaluate c .live []).outcome = .ok v → looked = references := by
    cases h : (evaluate c .live []).outcome with
    | ok v =>
      obtain ⟨indexed, noted⟩ := bracketed_of_evaluate telling ends h
      exact ⟨references, List.prefix_rfl, indexed, noted, fun _ _ => rfl⟩
    | error fault =>
      obtain ⟨looked, first, indexed, noted⟩ := exists_looked telling
      exact ⟨looked, first, indexed, noted, nofun⟩
  obtain ⟨looked, first, indexed, noted, all⟩ := run
  obtain ⟨trace, traced, substitutions, -⟩ := exists_trace tracing written
  have recorded : trace.substitutions.filter Substitution.isBracketed =
      looked.map (·.substitution c) := by
    rw [substitutions]
    exact noted
  refine ⟨trace, traced, looked, first, indexed, recorded, ?_, all⟩
  rw [recorded, List.map_map]
  rfl

/-- The condition is false after its first argument, and only one branch is wanted. -/
def everyBranch : String :=
  "LET(x, Sales[Q2], IF(AND(0, Cash[P0]), Sales[Q1] / 0, x + Sales [ 1 ])) + Sales[Q2]"

theorem looked_up_in_order_everyBranch :
    tracedQuarters.settings.collectTrace = true ∧
    Lacks (tracedQuarters.context (formulaChars everyBranch)).tokens lambdaName ∧
    ∃ trace, (tracedQuarters.evaluate everyBranch).trace = some trace ∧
      (trace.substitutions.filter Substitution.isBracketed).map (·.reference) =
        ["Sales[Q2]", "Cash[P0]", "Sales[Q1]", "Sales [ 1 ]", "Sales[Q2]"] := by
  have noLambda : Lacks (tracedQuarters.context (formulaChars everyBranch)).tokens lambdaName := by
    decide +kernel
  obtain ⟨v, h⟩ : ∃ v,
      (evaluate (tracedQuarters.context (formulaChars everyBranch)) .live []).outcome = .ok v :=
    exists_value (by decide +kernel)
  obtain ⟨trace, traced, looked, _, _, _, recorded, all⟩ :=
    looked_up_in_order tracedQuarters everyBranch rfl noLambda
  refine ⟨rfl, noLambda, trace, traced, recorded.trans ?_⟩
  rw [all v h]
  decide +kernel

-- A fault ends the row: the parenthesis misses its partner in front of the last reference.
example : (tracedQuarters.evaluate "Sales[Q1] + (Sales[Q2] Cash[Q1])").trace.map
    (fun trace => trace.substitutions.map (·.reference)) = some ["Sales[Q1]", "Sales[Q2]"] := by
  decide +kernel

end Quarterly.Formula
