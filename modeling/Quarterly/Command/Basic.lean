import Quarterly.Command.Transcript
import Quarterly.ConfigurationFile
import Quarterly.Formula.Validation
import Quarterly.Json.Writer

/-!
# Commands

The commands of the program: evaluate one formula for one company, check a formula, run a
configuration, write a first configuration, check a configuration, and tell the version. A command
never fails; what goes wrong is told in its transcript.
-/

namespace Quarterly

/-- The version of the program. -/
def version : String := "0.1.0"

/-- The quarters in a choice of quarters: the items of a list, or what stands between commas. An
empty choice is none. -/
def Quarter.choice? (given : Datum) : Option (List String) :=
  if !given.truth then none
  else match given with
    | .list items => some (items.map fun d => Text.trim d.plain)
    | d =>
      let parts := (d.plain.toList.splitOn ',').map Text.trimChars
      some ((parts.filter fun part => !part.isEmpty).map String.ofList)

namespace Command

/-- What a formula is evaluated with. The settings are checked by the command. -/
structure EvaluateRequest where
  data : String
  ticker : String
  formula : String
  quarters : Option (List String) := none
  trace : Datum := .bool false
  windowSize : Datum := .null
  verbose : Datum := .bool false

end Command

/-- A command with its arguments. -/
inductive Command where
  | evaluate (request : Command.EvaluateRequest)
  | validate (formula : String) (asJson : Bool)
  | run (configuration : String) (output : Option String) (verbose : Bool)
  | init (output : String) (force : Bool)
  | check (configuration : String)
  | version

namespace Command

def texts (lines : List String) : List Line := lines.map .text

/-- Names with commas between them, or a dash for none. -/
def listOrDash (names : List String) : String :=
  if names.isEmpty then "-" else ", ".intercalate names

/-- The lines about an error that ends a command. -/
def errorLines (message : String) : List String := ["\n✗ Error: " ++ message]

/-! ## Evaluating -/

/-- The line about a reference that was replaced by its value. -/
def substitutionLine (s : Formula.Substitution) : String :=
  "    " ++ s.reference ++ " -> " ++ s.found.quarter.getD "out of window" ++ ": " ++
    s.value.toText ++ if s.found.usedFallback then " [Financing Margin fallback]" else ""

/-- The lines about a trace. -/
def traceLines (t : Trace) : List Line :=
  texts (("  Substituted: " ++ t.substituted) :: t.substitutions.map substitutionLine) ++
    [.steps t.steps.length]

/-- The lines about a signal. -/
def signalLines (ticker : String) (s : Signal) : List Line :=
  texts ["✓ " ++ ticker ++ ": " ++ s.result.toText ++ " (" ++ s.kind.name ++ ")",
    "  Quarters: " ++ listOrDash s.usedQuarters] ++ ((s.trace.map traceLines).getD [])

/-- The settings of a request. -/
def EvaluateRequest.settings (r : EvaluateRequest) : Schema.Checked Settings :=
  Settings.ofEntries
    [("window_size", r.windowSize), ("collect_trace", r.trace), ("verbose", r.verbose)]

/-- The transcript of an evaluation over the records of the company. -/
def evaluated (r : EvaluateRequest) (records : List Record) : Transcript :=
  match r.settings with
  | .error issues =>
    .failed (errorLines (Schema.headline Settings.modelName issues ++
      String.join (issues.map ConfigurationFault.issueLine)))
  | .ok settings =>
    let built := (Evaluator.ofRecords records (r.quarters.getD []) settings).mapError
      EvaluatorFault.table
    match Signal.ofEvaluator built r.formula with
    | .error fault => .failed (errorLines fault.message)
    | .ok s =>
      { output := signalLines r.ticker s, notices := s.notices.map .signal }

/-- The transcript of an evaluation over a file of records. -/
def evaluatedIn (r : EvaluateRequest) (file : RecordFile) : Transcript :=
  let skipped := file.skipped.map Batch.Notice.skipped
  let t : Transcript := match (Record.byTicker file.records).get? r.ticker with
    | none => .failed ["✗ No records for ticker: " ++ r.ticker]
    | some records => evaluated r records
  { t with notices := skipped ++ t.notices, verbose := r.verbose.truth }

/-! ## Checking formulas -/

/-- A validation as a tree. -/
def validationDatum (v : Formula.Validation) : Datum :=
  let list (names : List String) : Datum := .list (names.map .text)
  .mapping [("valid", .bool v.valid), ("formula", v.formula), ("error", v.error.elim .null .text),
    ("metric_references", list v.references), ("functions", list v.functions),
    ("unknown_functions", list v.unknownFunctions)]

/-- The transcript of a validation. -/
def validated (formula : String) (asJson : Bool) (v : Formula.Validation) : Transcript :=
  let notices := v.notices.map fun n => Batch.Notice.signal (.evaluation n)
  let output :=
    if asJson then [Json.render .readable (validationDatum v)]
    else if v.valid then
      ["✓ Formula is valid: " ++ formula,
        "  Metric references: " ++ listOrDash v.references,
        "  Functions: " ++ listOrDash v.functions]
    else []
  let errors := match v.error with
    | some error => if asJson then [] else ["✗ Formula is invalid: " ++ error]
    | none => []
  { exitCode := if v.valid then 0 else 1, output := texts output, errors, notices }

/-- Check a formula. -/
def validateFormula (formula : String) (asJson : Bool) : Transcript :=
  match Formula.validate (.text formula) with
  | .ok v => validated formula asJson v
  | .error fault => .failed (errorLines fault.message)

/-! ## Checking configurations -/

/-- The lines about a rule of a configuration, for the output and about errors. -/
def ruleLines (rule : SignalRule) : List Line × List String :=
  match Formula.validate (.text rule.formula) with
  | .ok v =>
    match v.error with
    | none => ([.text ("  ✓ " ++ rule.name)], [])
    | some error => ([], ["  ✗ " ++ rule.name ++ ": " ++ error])
  | .error fault => ([], ["  ✗ " ++ rule.name ++ ": " ++ fault.message])

/-- The notices that the validation of a rule gives. -/
def ruleNotices (rule : SignalRule) : List Batch.Notice :=
  match Formula.validate (.text rule.formula) with
  | .ok v => v.notices.map fun n => .signal (.evaluation n)
  | .error _ => []

/-- The transcript of a check of a configuration that was read from a path. -/
def checked (path : String) (c : Configuration) : Transcript :=
  let rules := c.signals.map ruleLines
  let errors := rules.flatMap (·.2)
  { exitCode := if errors.isEmpty then 0 else 1
    output := texts ["✓ Configuration is valid: " ++ path, "  Data: " ++ c.data.path,
      "  Signals: " ++ toString c.signals.length] ++ rules.flatMap (·.1)
    errors
    notices := c.signals.flatMap ruleNotices }

/-! ## Running -/

/-- The line about how often a result occurs under a signal. -/
def countLine (entry : (String × String) × Nat) : String :=
  "  " ++ entry.1.1 ++ ": " ++ entry.1.2 ++ " x" ++ toString entry.2

/-- The transcript of a run. -/
def ran (verbose : Bool) (r : Batch.Report) : Transcript :=
  let lines := if verbose then r.lines else []
  match r.outcome with
  | .error fault =>
    { exitCode := 1, output := texts lines, errors := errorLines fault.message,
      notices := r.notices }
  | .ok rows =>
    let ending := if verbose then
        "\n✓ Signal run completed successfully!" :: (Batch.counts rows).map countLine
      else []
    { output := texts (lines ++ ending), notices := r.notices }

variable {m : Type → Type} [Monad m] [Storage m]

/-- Evaluate a formula for a company. -/
def evaluateFormula (r : EvaluateRequest) : m Transcript := do
  match ← RecordFile.load r.data [r.ticker] with
  | .ok file => return evaluatedIn r file
  | .error fault => return .failed (errorLines fault.message)

/-- Run a configuration. -/
def runConfiguration (path : String) (output : Option String) (verbose : Bool) : m Transcript := do
  match ← Configuration.load path with
  | .ok c => return ran verbose (← Batch.run c output)
  | .error fault => return .failed (errorLines fault.message)

/-- Check a configuration and every formula in it. -/
def checkConfiguration (path : String) : m Transcript := do
  match ← Configuration.load path with
  | .ok c => return checked path c
  | .error fault => return .failed ["✗ Configuration is invalid: " ++ fault.message]

/-- The configuration that the program starts with. -/
def firstConfiguration : Schema.Checked Configuration :=
  Configuration.ofEntries Configuration.standard

/-- Write the first configuration to a path. -/
def writeFirst (path : String) : m Transcript := do
  match firstConfiguration with
  | .error issues =>
    return .failed ["✗ Error creating configuration: " ++
      Schema.headline Configuration.modelName issues]
  | .ok c =>
    match ← Configuration.save c path with
    | .error fault => return .failed ["✗ Error creating configuration: " ++ fault.message]
    | .ok () => return { output := texts ["✓ Created configuration file: " ++ path,
        "  Edit the file and run: quarter-signal run --config " ++ path] }

/-- Write the first configuration. A file that is there stays, unless it may be overwritten. -/
def startConfiguration (path : String) (force : Bool) : m Transcript := do
  let entry ← Storage.find (.ofText path)
  if !entry.isAbsent && !force then
    return .failed ["✗ File already exists: " ++ path, "  Use --force to overwrite"]
  else writeFirst path

/-- Execute a command. -/
def execute : Command → m Transcript
  | .evaluate request => evaluateFormula request
  | .validate formula asJson => return validateFormula formula asJson
  | .run path output verbose => runConfiguration path output verbose
  | .init output force => startConfiguration output force
  | .check path => checkConfiguration path
  | .version => return { output := [.text ("quarter-signal version " ++ Quarterly.version)] }

end Command

end Quarterly
