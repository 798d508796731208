import Quarterly.Configuration
import Quarterly.Formula.Plain
import Quarterly.Number.Column
import Quarterly.RecordFile
import Quarterly.Signal

/-!
# Batches

Every rule of a configuration is evaluated for every company. Rules that select the same quarters
share an evaluator, which is made when the first of them needs it. Companies may be finished in any
order; the rows follow the order in which companies appear in the records, and within a company
that of the rules.
-/

namespace Quarterly

open Formula (Value ResultKind)

/-- The outcome of a rule for a company. -/
structure BatchRow where
  ticker : String
  signal : String
  formula : String
  result : Value
  kind : ResultKind
  usedQuarters : List String

/-- What the evaluation of a company leaves: its rows, and the notices that it gave. -/
structure CompanyOutcome where
  rows : List BatchRow
  notices : List SignalNotice

namespace Batch

/-- Evaluators by the quarters that they select. -/
abbrev Evaluators := List (List String × Evaluator)

/-- The quarters that a rule selects; none select all of them. -/
def selection (rule : SignalRule) : List String := rule.selectedQuarters.getD []

/-- The evaluator for a selection: one that is there, or a new one. -/
def evaluatorFor (records : List Record) (settings : Settings) (known : Evaluators)
    (selected : List String) : Except Metric.TableFault (Evaluator × Evaluators) :=
  match known.lookup selected with
  | some e => pure (e, known)
  | none => do
    let e ← Evaluator.ofRecords records selected settings
    return (e, (selected, e) :: known)

/-- The row of a rule for a company, from the signal of its formula. -/
def rowOf (ticker : String) (rule : SignalRule) (signal : Signal) : BatchRow :=
  ⟨ticker, rule.name, rule.formula, signal.result, signal.kind, signal.usedQuarters⟩

/-- Evaluate rules for a company, with the evaluators that are there. -/
def evaluateRules (ticker : String) (records : List Record) (settings : Settings) :
    Evaluators → List SignalRule → Except Metric.TableFault CompanyOutcome
  | _, [] => pure ⟨[], []⟩
  | known, rule :: rest => do
    let (e, known) ← evaluatorFor records settings known (selection rule)
    let signal := Signal.ofReport (e.evaluate rule.formula)
    let others ← evaluateRules ticker records settings known rest
    return ⟨rowOf ticker rule signal :: others.rows, signal.notices ++ others.notices⟩

/-- Evaluate a configuration for a company. -/
def evaluateCompany (c : Configuration) (ticker : String) (records : List Record) :
    Except Metric.TableFault CompanyOutcome :=
  evaluateRules ticker records c.evaluator [] c.signals

/-- The outcomes of companies, in the order in which they are finished. -/
def outcomes (c : Configuration) : List (String × List Record) →
    Except Metric.TableFault (Keyed CompanyOutcome)
  | [] => pure []
  | (ticker, records) :: rest => do
    let outcome ← evaluateCompany c ticker records
    let others ← outcomes c rest
    return (ticker, outcome) :: others

/-- The rows of companies in a given order, whatever the order in which they were finished. -/
def rowsInOrder (tickers : List String) (finished : Keyed CompanyOutcome) : List BatchRow :=
  tickers.flatMap fun ticker => ((finished.get? ticker).map (·.rows)).getD []

/-- Evaluate a configuration for some companies that are finished in a given order. -/
def evaluateIn (c : Configuration) (companies : Keyed (List Record))
    (finishing : List (String × List Record)) : Except Metric.TableFault CompanyOutcome := do
  let finished ← outcomes c finishing
  return ⟨rowsInOrder companies.keys finished, finished.flatMap (·.2.notices)⟩

/-- Evaluate a configuration for some companies. -/
def evaluate (c : Configuration) (companies : Keyed (List Record)) :
    Except Metric.TableFault CompanyOutcome :=
  evaluateIn c companies companies

/-! ## Tables of results -/

/-- What a result is as an entry of its column. -/
def resultKind : Value → Column.Kind
  | .number n => .number n
  | .bool _ => .truth
  | .null => .missing
  | _ => .other

/-- A result with its number changed. -/
def changeResult (change : Number → Number) : Value → Value
  | .number n => .number (change n)
  | v => v

/-- A row with its number changed. -/
def changeRow (change : Number → Number) (row : BatchRow) : BatchRow :=
  { row with result := changeResult change row.result }

/-- The rows with one kind of number among their results. -/
def uniform (rows : List BatchRow) : Except NumericFault (List BatchRow) :=
  Column.uniform (fun row : BatchRow => resultKind row.result) changeRow rows

/-- The names of the columns of a table of results. -/
def columns : List String :=
  ["ticker", "signal", "formula", "result", "result_type", "used_quarters"]

/-- The quarters of a row in one field. -/
def quartersField (row : BatchRow) : String := ",".intercalate row.usedQuarters

/-- The fields of a row. -/
def fieldsOf (row : BatchRow) : List String :=
  [row.ticker, row.signal, row.formula, row.result.field, row.kind.name, quartersField row]

/-- A table of results as delimited text. -/
def delimitedText (rows : List BatchRow) : String :=
  Sheet.delimitedText columns (rows.map fieldsOf)

/-- How often each result occurs under each signal, in alphabetical order. -/
def counts (rows : List BatchRow) : List ((String × String) × Nat) :=
  let pairs := rows.map fun row => (row.signal, row.result.toText)
  let precedes (a b : String × String) : Bool := a.1 < b.1 || (a.1 == b.1 && a.2 ≤ b.2)
  (Quarter.distinct pairs).mergeSort precedes |>.map fun pair => (pair, pairs.count pair)

/-! ## Runs -/

/-- Why a run has no table of results. -/
inductive Fault where
  | load (cause : LoadFault)
  | table (cause : Metric.TableFault)
  | numeric (cause : NumericFault)
  | storage (cause : StorageFault)

namespace Fault

/-- The wording of a fault. -/
def message : Fault → String
  | load cause => cause.message
  | table cause => cause.message
  | numeric cause => cause.message
  | storage cause => cause.message

end Fault

/-- Something worth telling whoever runs a batch. -/
inductive Notice where
  | skipped (row : SkippedRow)
  | signal (notice : SignalNotice)

namespace Notice

def level : Notice → Formula.Level
  | skipped _ => .warning
  | signal notice => notice.level

/-- The wording of a notice. -/
def message : Notice → String
  | skipped row => row.message
  | signal notice => notice.message

end Notice

/-- What a run reports: the lines that tell its progress, its notices, and its table of results. -/
structure Report where
  lines : List String
  notices : List Notice
  outcome : Except Fault (List BatchRow)

/-- A line between the parts of a report. -/
def rule : String := String.ofList (List.replicate 80 '=')

/-- The lines that a run starts with. -/
def openingLines (c : Configuration) : List String :=
  [rule, "Running Signal Evaluation", rule, "\nData: " ++ c.data.path,
    "Signals: " ++ toString c.signals.length] ++
  c.signals.map fun s => "  - " ++ s.name ++ ": " ++ s.formula

/-- The line about what was loaded. -/
def loadedLine (records : List Record) : String :=
  "[INFO] Loaded " ++ toString records.length ++ " records for " ++
    toString (Record.byTicker records).length ++ " tickers"

def savedLine (path : Path) : String := "\nResults saved to: " ++ path.text

def closingLine : String := "\nSignal evaluation complete!"

/-- The table of results for some records, with the notices of the evaluations. -/
def resultsOf (c : Configuration) (records : List Record) :
    Except Fault (List BatchRow × List Notice) := do
  let outcome ← (evaluate c (Record.byTicker records)).mapError .table
  let rows ← (uniform outcome.rows).mapError .numeric
  return (rows, outcome.notices.map .signal)

variable {m : Type → Type} [Monad m] [Storage m]

/-- Write a table of results if a path is given for it; the result is the lines about that. -/
def saveResults (output : Option String) (rows : List BatchRow) : m (Except Fault (List String)) :=
  match output with
  | none => return .ok []
  | some output => do
    let path := Path.ofText output
    match ← Storage.write path (delimitedText rows) with
    | .ok () => return .ok [savedLine path]
    | .error cause => return .error (.storage cause)

/-- Load the records of a configuration, evaluate it, and save the results if a path is given for
them. -/
def run (c : Configuration) (output : Option String) : m Report := do
  let opening := openingLines c
  match ← RecordFile.load c.data.path (c.data.tickers.getD []) with
  | .error cause => return ⟨opening, [], .error (.load cause)⟩
  | .ok file =>
    let skipped := file.skipped.map Notice.skipped
    let loaded := opening ++ [loadedLine file.records]
    match resultsOf c file.records with
    | .error fault => return ⟨loaded, skipped, .error fault⟩
    | .ok (rows, notices) =>
      match ← saveResults output rows with
      | .error fault => return ⟨loaded, skipped ++ notices, .error fault⟩
      | .ok saved => return ⟨loaded ++ saved ++ [closingLine], skipped ++ notices, .ok rows⟩

end Batch

end Quarterly
