import Quarterly.Formula.Evaluation
import Quarterly.Formula.Substituted
import Quarterly.Formula.Written
import Quarterly.Settings

/-!
# Evaluators

An evaluator is ready to evaluate formulas for one company: its table is built once and serves any
number of formulas. No evaluation fails. A formula that faults and one that yields null both report
that there is no signal; the journal tells the rest.
-/

namespace Quarterly

open Formula (Value Fault Substitution Step Notice)

structure Evaluator where
  settings : Settings
  /-- The selected quarters; an empty selection selects all. -/
  selected : List String
  table : Metric.Table Float

/-- How a result came about. -/
structure Trace where
  formula : String
  /-- The formula with values in place of references. -/
  substituted : String
  substitutions : List Substitution
  steps : List Step
  result : Value
  usedQuarters : List String

/-- What an evaluation reports. -/
structure Report where
  result : Value
  /-- The quarters that references were resolved in, newest first. -/
  referenced : List String
  /-- The quarters behind the result. -/
  used : List String
  trace : Option Trace
  notices : List Notice

namespace Evaluator

/-- An evaluator over some records. -/
def ofRecords (records : List Record) (selected : List String) (settings : Settings) :
    Except Metric.TableFault Evaluator := do
  let table ← Metric.Table.ofRecords records selected settings.windowSize
  return ⟨settings, selected, table⟩

/-- The quarters behind a result: those that it refers to, or else those selected, or else the
whole window. -/
def usedQuarters (e : Evaluator) (referenced : List String) : List String :=
  if !referenced.isEmpty then referenced
  else if !e.selected.isEmpty then e.table.quarters.filter e.selected.contains
  else e.table.quarters

/-- What a formula is evaluated with. -/
def context (e : Evaluator) (formula : List Char) : Formula.Context :=
  { formula
    tokens := (Formula.tokenize Formula.isFunctionName (String.ofList formula)).toArray
    table := e.table
    maxDepth := e.settings.maxDepth
    tracing := e.settings.collectTrace
    verbose := e.settings.verbose }

/-- The result that an outcome is reported as. -/
def reported : Except Fault Value → Value
  | .ok .null => .text Formula.noSignal
  | .ok v => v
  | .error _ => .text Formula.noSignal

/-- The notice that a fault gives rise to. -/
def faultNotice (formula : String) : Except Fault Value → List Notice
  | .ok _ => []
  | .error fault => [.notEvaluated formula fault]

/-- What is reported of the evaluation of a formula. -/
def report (e : Evaluator) (formula : String) (run : Formula.Evaluation) : Report :=
  let result := reported run.outcome
  let referenced := e.table.quarters.filter run.journal.referenced.toList.contains
  let used := e.usedQuarters referenced
  let substitutions := run.journal.substitutions.toList
  { result, referenced, used
    trace := if e.settings.collectTrace then some
      { formula, substituted := Formula.substituted formula substitutions, substitutions
        steps := run.journal.steps.toList, result, usedQuarters := used } else none
    notices := run.journal.notices.toList ++ faultNotice formula run.outcome }

/-- Evaluate a formula. -/
def evaluate (e : Evaluator) (written : String) : Report :=
  let chars := Formula.formulaChars written
  e.report (String.ofList chars) (Formula.evaluate (e.context chars) .live [])

end Evaluator

end Quarterly
