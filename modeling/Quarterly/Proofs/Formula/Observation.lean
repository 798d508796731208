import Quarterly.Evaluator
import Quarterly.Proofs.Formula.View

/-!
# Tracing and verbosity only observe

The two switches decide what is noted and noticed on the way, and nothing is ever read back from
the journal. Take from a run all that the switches may have added to its journal: what is left is
the run with both switches off. So the result of an evaluation, the quarters it reports and its
warnings are the same however it is observed.
-/

namespace Quarterly.Formula

/-- The same work with both switches off. -/
def Context.quiet (c : Context) : Context := { c with tracing := false, verbose := false }

namespace Journal

/-- What does not depend on the switches: the quarters and the warnings. -/
def seen (j : Journal) : Journal where
  referenced := j.referenced
  notices := j.notices.filter (·.level = .warning)

theorem seen_stepped (j : Journal) (c : Context) (mode : Mode) (step : Step) :
    (j.stepped c mode step).seen = j.seen := by
  unfold stepped
  split <;> rfl

theorem stepped_quiet (j : Journal) (c : Context) (mode : Mode) (step : Step) :
    j.stepped c.quiet mode step = j := by
  simp [stepped, Context.quiet]

theorem seen_unknownFunction (j : Journal) (name : String) :
    ({ j with notices := j.notices.push (.unknownFunction name) } : Journal).seen =
      { j.seen with notices := j.seen.notices.push (.unknownFunction name) } := by
  simp [seen, Notice.level]

theorem seen_lookedUp (j : Journal) (c : Context) (metric : String) (index : Int)
    (reference : String) :
    (j.lookedUp c metric index reference).seen =
      j.seen.lookedUp c.quiet metric index reference := by
  unfold seen lookedUp Context.quiet
  cases c.verbose <;> simp [Notice.level]

end Journal

/-- With both switches off everything is the same but for what the switches add to the journal. -/
def Context.unobserved (c : Context) : View c c.quiet where
  journal := Journal.seen
  StandsFor := Eq
  tokens := rfl
  formula := rfl
  table := rfl
  same _ := rfl
  tooDeep := rfl
  stepped j mode step := by rw [Journal.seen_stepped, Journal.stepped_quiet]
  noticed := Journal.seen_unknownFunction
  lookedUp j metric index reference := j.seen_lookedUp c metric index reference

/-- An evaluation without what the switches add to its journal. -/
def Evaluation.seen (run : Evaluation) : Evaluation := { run with journal := run.journal.seen }

/-- The evaluation without observation is the evaluation less what was only observed. -/
theorem evaluate_quiet (c : Context) (mode : Mode) (scope : Scope) :
    evaluate c.quiet mode scope = (evaluate c mode scope).seen := by
  rw [evaluate_eq, evaluate_eq]
  have ends := c.unobserved.readAll c.maxDepth.toNat mode scope (.start scope)
  change c.unobserved.Ends _ _
    (readAll c.maxDepth.toNat mode scope c.quiet (.start scope)) at ends
  change Evaluation.ofEnd (readAll c.maxDepth.toNat mode scope c.quiet (.start scope)) = _
  generalize readAll c.maxDepth.toNat mode scope c (.start scope) = observed at ends ⊢
  generalize readAll c.maxDepth.toNat mode scope c.quiet (.start scope) = quiet at ends ⊢
  cases ends with
  | ok _ => rfl
  | error same =>
    subst same
    rfl

end Quarterly.Formula

namespace Quarterly

open Formula (Value Notice)

/-- What a report says apart from its trace: the result, the quarters and the warnings. -/
structure Report.Findings where
  result : Value
  referenced : List String
  used : List String
  warnings : List Notice

def Report.findings (r : Report) : Report.Findings :=
  { result := r.result, referenced := r.referenced, used := r.used
    warnings := r.notices.filter (·.level = .warning) }

namespace Evaluator

/-- An evaluator with both switches off. -/
def quiet (e : Evaluator) : Evaluator :=
  { e with settings := { e.settings with collectTrace := false, verbose := false } }

/-- The findings do not depend on what was only observed. -/
theorem findings_report (e : Evaluator) (formula : String) (run : Formula.Evaluation) :
    (e.quiet.report formula run.seen).findings = (e.report formula run).findings := by
  simp [report, Formula.Evaluation.seen, Report.findings, Formula.Journal.seen, usedQuarters, quiet]

theorem findings_quiet (e : Evaluator) (written : String) :
    (e.quiet.evaluate written).findings = (e.evaluate written).findings := by
  let chars := Formula.formulaChars written
  calc (e.quiet.evaluate written).findings
    _ = (e.quiet.report (String.ofList chars)
          (Formula.evaluate (e.context chars).quiet .live [])).findings := rfl
    _ = (e.quiet.report (String.ofList chars)
          (Formula.evaluate (e.context chars) .live []).seen).findings := by
        rw [Formula.evaluate_quiet]
    _ = (e.evaluate written).findings := e.findings_report _ _

end Evaluator

end Quarterly
