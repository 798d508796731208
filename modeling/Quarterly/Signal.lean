import Quarterly.Evaluator

/-!
# Signals

One formula over the records of one company, from data as it was stored. Data that are no records
and quarters that cannot be put in order give no signal; only a number too large for a double is
passed on as a fault.
-/

namespace Quarterly

open Formula (Value)

/-- Why no evaluator can be built from data. -/
inductive EvaluatorFault where
  | invalidRecord (issues : List Schema.Issue)
  | table (cause : Metric.TableFault)
  deriving Repr, DecidableEq

namespace EvaluatorFault

/-- The wording of a fault. Issues are summed up in their headline. -/
def message : EvaluatorFault → String
  | invalidRecord issues => Schema.headline Record.modelName issues
  | table cause => cause.message

end EvaluatorFault

/-- The records that data stand for; the first invalid one is reported. -/
def checkRecords (data : List Datum) : Except EvaluatorFault (List Record) :=
  data.mapM fun d => (Record.check d).mapError .invalidRecord

/-- An evaluator over records given as data. -/
def Evaluator.ofData (data : List Datum) (selected : List String) (settings : Settings) :
    Except EvaluatorFault Evaluator := do
  let records ← checkRecords data
  (Evaluator.ofRecords records selected settings).mapError .table

/-- Something worth telling whoever asks for a signal. -/
inductive SignalNotice where
  | evaluation (notice : Formula.Notice)
  | noTable (cause : EvaluatorFault)

namespace SignalNotice

def level : SignalNotice → Formula.Level
  | evaluation notice => notice.level
  | noTable _ => .warning

/-- The wording of a notice. -/
def message : SignalNotice → String
  | evaluation notice => notice.message
  | noTable cause => "[evaluate_signal] Could not build metric table: " ++ cause.message

end SignalNotice

/-- A signal and how it came about. -/
structure Signal where
  result : Value
  kind : Formula.ResultKind
  usedQuarters : List String
  trace : Option Trace
  notices : List SignalNotice

namespace Signal

/-- No signal, for want of a table. -/
def absent (notices : List SignalNotice) : Signal :=
  ⟨.text Formula.noSignal, .string, [], none, notices⟩

/-- A lambda is reported as its text. -/
def shown : Value → Value
  | v@(.lambda ..) => .text v.toText
  | v => v

/-- The signal that an evaluation reports. -/
def ofReport (report : Report) : Signal :=
  let result := shown report.result
  ⟨result, result.resultKind, report.used, report.trace, report.notices.map .evaluation⟩

/-- The signal of a formula over some records, given with what built an evaluator from them. -/
def ofEvaluator (built : Except EvaluatorFault Evaluator) (formula : String) :
    Except NumericFault Signal :=
  match built with
  | .ok e => pure (ofReport (e.evaluate formula))
  | .error (.table (.numeric cause)) => throw cause
  | .error cause => pure (absent [.noTable cause])

end Signal

/-- Evaluate a formula over data. -/
def evaluateSignal (data : List Datum) (formula : String) (selected : List String)
    (settings : Settings) : Except NumericFault Signal :=
  if data.isEmpty then pure (.absent [])
  else Signal.ofEvaluator (Evaluator.ofData data selected settings) formula

end Quarterly
