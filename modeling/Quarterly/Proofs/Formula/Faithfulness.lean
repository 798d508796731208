import Quarterly.Evaluator
import Quarterly.Proofs.Formula.Journaled
import Quarterly.Proofs.Metric.Building

/-!
# Traces are faithful

A traced evaluation notes what it did and nothing else. Every look-up is noted three times, as a
quarter, as a substitution and as a step, and every other step has the result that its operator or
function gives for the operands noted with it. This is an invariant of the journal (`Faithful`),
kept by each of the three computations that write to it. So it holds wherever a fault cuts an
evaluation off.
-/

namespace Quarterly

namespace Metric.Table

variable {α : Type}

theorem index_resolve (t : Table α) (name : String) (index : Int) :
    (t.resolve name index).index = index := by
  unfold resolve
  cases t.quarterAt? index with
  | none => rfl
  | some quarter =>
    dsimp only
    cases Metric.find? (t.metricsOf quarter) name <;> rfl

end Metric.Table

namespace Formula

/-- The substitution that goes with a step. -/
def Step.lookup? : Step → Option Substitution
  | .lookup s => some s
  | _ => none

theorem Step.lookup?_of_computed {step : Step} (h : step.Computed) : step.lookup? = none := by
  cases step with
  | lookup s => exact h.elim
  | _ => rfl

namespace Journal

/-- The journal with the three notes of a look-up. -/
def traced (j : Journal) (s : Substitution) : Journal :=
  { j with
    referenced := j.referenced ++ s.found.quarter.toArray
    substitutions := j.substitutions.push s
    steps := j.steps.push (.lookup s) }

theorem lookedUp_of_tracing {c : Context} (tracing : c.tracing = true) (j : Journal)
    (metric : String) (index : Int) (reference : String) :
    ∃ notices, j.lookedUp c metric index reference =
      { j.traced ⟨reference, metric, c.table.resolve metric index⟩ with notices } := by
  refine ⟨(j.lookedUp c metric index reference).notices, ?_⟩
  unfold traced
  rw [← j.referenced_lookedUp c metric index reference]
  simp only [lookedUp, tracing, if_true]

/-- Everything in a journal is what it says. -/
structure Faithful (table : Metric.Table Float) (j : Journal) : Prop where
  lookups : j.steps.toList.filterMap Step.lookup? = j.substitutions.toList
  resolved : ∀ s ∈ j.substitutions, s.found = table.resolve s.metric s.found.index
  computed : ∀ step ∈ j.steps, step.lookup? = none → step.Computed
  referenced : j.referenced.toList = j.substitutions.toList.filterMap (·.found.quarter)

namespace Faithful

variable {table : Metric.Table Float} {j : Journal}

theorem empty : Faithful table {} where
  lookups := rfl
  resolved _ hs := by simp at hs
  computed _ hs := by simp at hs
  referenced := rfl

theorem notice (h : j.Faithful table) (notices : Array Notice) :
    Faithful table { j with notices } where
  lookups := h.lookups
  resolved := h.resolved
  computed := h.computed
  referenced := h.referenced

theorem step (h : j.Faithful table) {step : Step} (computed : step.Computed) :
    Faithful table { j with steps := j.steps.push step } where
  lookups := by
    have noLookup := Step.lookup?_of_computed computed
    simp only [Array.toList_push, List.filterMap_append, List.filterMap_cons, noLookup,
      List.filterMap_nil, List.append_nil]
    exact h.lookups
  resolved := h.resolved
  computed other mem noLookup := by
    rcases Array.mem_push.mp mem with mem | rfl
    · exact h.computed other mem noLookup
    · exact computed
  referenced := h.referenced

theorem lookup (h : j.Faithful table) {s : Substitution}
    (resolved : s.found = table.resolve s.metric s.found.index) : (j.traced s).Faithful table where
  lookups := by
    simp only [traced, Array.toList_push, List.filterMap_append, h.lookups]
    rfl
  resolved other mem := by
    rcases Array.mem_push.mp mem with mem | rfl
    · exact h.resolved other mem
    · exact resolved
  computed step mem noLookup := by
    rcases Array.mem_push.mp mem with mem | rfl
    · exact h.computed step mem noLookup
    · cases noLookup
  referenced := by
    simp only [traced, Array.toList_append, Array.toList_push, List.filterMap_append, h.referenced,
      List.filterMap_cons]
    cases s.found.quarter <;> rfl

end Faithful

end Journal

/-- Readings with tracing keep journals faithful. -/
theorem leads_faithful {c : Context} (tracing : c.tracing = true) :
    Leads c (fun _ => True) fun j j' => j.Faithful c.table → j'.Faithful c.table where
  dry := trivial
  refl _ h := h
  trans first second h := second (first h)
  stepped j _ computed h := by
    unfold Journal.stepped
    split
    · exact h.step computed
    · exact h
  noticed _ _ _ h := h.notice _
  lookedUp _ j metric index reference h := by
    obtain ⟨notices, same⟩ := j.lookedUp_of_tracing tracing metric index reference
    rw [same]
    refine (h.lookup ?_).notice notices
    rw [c.table.index_resolve metric index]

theorem faithful_of_evaluate (c : Context) (tracing : c.tracing = true) (mode : Mode)
    (scope : Scope) : (evaluate c mode scope).journal.Faithful c.table :=
  (leads_faithful tracing).evaluate trivial scope .empty

end Formula

/-! ### Traces -/

open Quarter (Newer LaterLabel parseLabel?)

theorem Evaluator.table_of_ofRecords {records : List Record} {selected : List String}
    {settings : Settings} {e : Evaluator}
    (h : Evaluator.ofRecords records selected settings = .ok e) :
    Metric.Table.ofRecords records selected settings.windowSize = .ok e.table := by
  obtain ⟨t, built, ⟨⟩⟩ := Except.bind_eq_ok.mp h
  exact built

/-- The trace of an evaluation is faithful, whether the formula comes to a value or faults. Its
look-ups are its substitutions, each with what the table gives for the reference; its other steps
have the results that they should have; and the quarters of the report are those of the
substitutions, in the order of the window. -/
theorem trace_faithful {e : Evaluator} (tracing : e.settings.collectTrace = true)
    (written : String) : ∃ trace, (e.evaluate written).trace = some trace ∧
      trace.steps.filterMap Formula.Step.lookup? = trace.substitutions ∧
      (∀ s ∈ trace.substitutions, s.found = e.table.resolve s.metric s.found.index) ∧
      (∀ step ∈ trace.steps, step.lookup? = none → step.Computed) ∧
      (e.evaluate written).referenced = e.table.quarters.filter
        (fun quarter => trace.substitutions.any (·.found.quarter == some quarter)) ∧
      ((e.evaluate written).referenced ≠ [] →
        (e.evaluate written).used = (e.evaluate written).referenced) ∧
      trace.usedQuarters = (e.evaluate written).used ∧
      ∀ records selected settings, Evaluator.ofRecords records selected settings = .ok e →
        (e.evaluate written).referenced.Nodup ∧
          ((e.evaluate written).referenced.Pairwise (Newer parseLabel?) ∨
            (e.evaluate written).referenced.Pairwise LaterLabel) := by
  let chars := Formula.formulaChars written
  let run := Formula.evaluate (e.context chars) .live []
  have faithful : run.journal.Faithful e.table :=
    Formula.faithful_of_evaluate (e.context chars) tracing .live []
  have referenced : (e.evaluate written).referenced = e.table.quarters.filter
      (fun quarter => run.journal.substitutions.toList.any (·.found.quarter == some quarter)) := by
    change e.table.quarters.filter run.journal.referenced.toList.contains = _
    rw [faithful.referenced]
    congr 1
    funext quarter
    rw [Bool.eq_iff_iff, List.contains_iff_mem, List.mem_filterMap, List.any_eq_true]
    simp only [beq_iff_eq]
  refine ⟨_, if_pos tracing, faithful.lookups, ?_, ?_, referenced, ?_, rfl, ?_⟩
  · exact fun s hs => faithful.resolved s (Array.mem_toList_iff.mp hs)
  · exact fun step hs => faithful.computed step (Array.mem_toList_iff.mp hs)
  · intro some
    change e.usedQuarters (e.evaluate written).referenced = _
    unfold Evaluator.usedQuarters
    rw [if_pos (by simpa using some)]
  · intro records selected settings built
    have table := e.table_of_ofRecords built
    have part : (e.evaluate written).referenced.Sublist e.table.quarters := by
      rw [referenced]
      exact List.filter_sublist
    exact ⟨(Metric.nodup_window table).sublist part,
      (Metric.window_ordered table).imp (·.sublist part) (·.sublist part)⟩

/-- A traced evaluator over the sales of two quarters. -/
def tracedSales : Evaluator where
  settings := { collectTrace := true }
  selected := []
  table :=
    { cells := [("2024-Q2", [("Sales", some 50)]), ("2024-Q1", [("Sales", some 40)])]
      quarters := ["2024-Q2", "2024-Q1"], windowSize := 2 }

/-- The growth of the sales, cut off by a sum that is not complete. -/
theorem trace_faithful_tracedSales : tracedSales.settings.collectTrace = true ∧
    ∃ trace, (tracedSales.evaluate "Sales[Q2]-Sales[Q1]+").trace = some trace ∧
      trace.steps.filterMap Formula.Step.lookup? = trace.substitutions ∧
      (∀ s ∈ trace.substitutions, s.found = tracedSales.table.resolve s.metric s.found.index) ∧
      (∀ step ∈ trace.steps, step.lookup? = none → step.Computed) ∧
      trace.usedQuarters = ["2024-Q2", "2024-Q1"] ∧ trace.steps.length = 3 := by
  have quarters : (tracedSales.evaluate "Sales[Q2]-Sales[Q1]+").used = ["2024-Q2", "2024-Q1"] := by
    decide +kernel
  have steps : (tracedSales.evaluate "Sales[Q2]-Sales[Q1]+").trace.map (·.steps.length) =
      some 3 := by decide +kernel
  have tracing : tracedSales.settings.collectTrace = true := rfl
  obtain ⟨trace, ht, lookups, resolved, computed, _, _, used, _⟩ :=
    trace_faithful tracing "Sales[Q2]-Sales[Q1]+"
  rw [ht] at steps
  exact ⟨tracing, trace, ht, lookups, resolved, computed, used.trans quarters,
    Option.some.inj steps⟩

end Quarterly
