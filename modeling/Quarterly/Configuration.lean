import Quarterly.Datum.Merge
import Quarterly.Settings

/-!
# Configurations

What a run evaluates: a data file, the settings of the evaluators, and formulas with names. A
configuration is given as data that is laid over the standard one. The formulas are never merged
with those of the standard configuration; one without formulas evaluates none.
-/

namespace Quarterly

open Schema

/-- Where the records of a run come from. -/
structure DataSource where
  path : String
  /-- The companies to evaluate; all of them if there is no choice. -/
  tickers : Option (List String) := none
  deriving Repr, DecidableEq

/-- A formula that a run evaluates under a name. -/
structure SignalRule where
  name : String
  formula : String
  /-- The quarters of the window; all of them if there is no choice. -/
  selectedQuarters : Option (List String) := none
  deriving Repr, DecidableEq

structure Configuration where
  data : DataSource
  evaluator : Settings := {}
  signals : List SignalRule := []
  /-- How many companies may be evaluated at the same time. -/
  maxWorkers : Int := 1
  deriving Repr, DecidableEq

/-- Null for nothing, and a list of texts otherwise. -/
def Datum.ofTexts : Option (List String) → Datum
  | none => .null
  | some texts => .list (texts.map .text)

namespace DataSource

/-- The name of the model in reports. -/
def modelName : String := "DataConfig"

/-- A data source given as data. Keys that belong to no field are passed over. -/
def check : Check DataSource := fun d => do
  let entries ← Check.model modelName d
  let path := required entries "path" Check.string
  let tickers := withDefault entries "tickers" none (Check.optional (Check.list Check.string))
  let (path, tickers) ← path.both tickers
  return ⟨path, tickers⟩

def toDatum (s : DataSource) : Datum :=
  .mapping [("path", .text s.path), ("tickers", .ofTexts s.tickers)]

end DataSource

namespace SignalRule

/-- The name of the model in reports. -/
def modelName : String := "SignalConfig"

def fields : List String := ["name", "formula", "selected_quarters"]

/-- A formula that is not blank. -/
def formulaText : Check String := fun d => do
  let s ← Check.string d
  if Text.isAllBlank s then Checked.fail (.valueError "formula must not be blank") else pure s

/-- A rule given as data. -/
def check : Check SignalRule := fun d => do
  let entries ← Check.model modelName d
  let name := required entries "name" Check.string
  let formula := required entries "formula" formulaText
  let selected := withDefault entries "selected_quarters" none
    (Check.optional (Check.list Check.string))
  let (name, formula, selected, _) ←
    name.both (formula.both (selected.both (noExtras entries fields)))
  return ⟨name, formula, selected⟩

def toDatum (r : SignalRule) : Datum :=
  .mapping [("name", .text r.name), ("formula", .text r.formula),
    ("selected_quarters", .ofTexts r.selectedQuarters)]

end SignalRule

namespace Configuration

/-- The name of the model in reports. -/
def modelName : String := "RunConfig"

def fields : List String := ["data", "evaluator", "signals", "max_workers"]

/-- The configuration among the entries of a mapping. -/
def ofEntries (entries : Keyed Datum) : Checked Configuration := do
  let data := required entries "data" DataSource.check
  let evaluator := withDefault entries "evaluator" {} Settings.check
  let signals := withDefault entries "signals" [] (Check.list SignalRule.check)
  let maxWorkers := withDefault entries "max_workers" 1 (Check.positive "max_workers")
  let (data, evaluator, signals, maxWorkers, _) ←
    data.both (evaluator.both (signals.both (maxWorkers.both (noExtras entries fields))))
  return ⟨data, evaluator, signals, maxWorkers⟩

/-- A configuration as entries under its field names. -/
def toEntries (c : Configuration) : Keyed Datum := [
  ("data", c.data.toDatum), ("evaluator", .mapping c.evaluator.toEntries),
  ("signals", .list (c.signals.map SignalRule.toDatum)), ("max_workers", .int c.maxWorkers)]

def toDatum (c : Configuration) : Datum := .mapping c.toEntries

/-- The data source that is read unless another one is given. -/
def standardSource : Datum :=
  .mapping [("path", .text ".data/quarterly_metrics.csv"), ("tickers", .null)]

/-- A rule that shows what formulas look like. -/
def exampleRule : Datum :=
  .mapping [("name", .text "sales_momentum"),
    ("formula", .text "IF(Sales[Q2] > Sales[Q1], \"BUY\", \"SELL\")")]

/-- The standard configuration with given rules. -/
def standardWith (rules : List Datum) : Keyed Datum := [
  ("data", standardSource), ("evaluator", .mapping (Settings.toEntries {})),
  ("signals", .list rules), ("max_workers", .int 1)]

/-- The standard configuration with its example. -/
def standard : Keyed Datum := standardWith [exampleRule]

/-- Entries laid over the standard configuration, whose example is left out. -/
def overStandard (entries : Keyed Datum) : Keyed Datum :=
  Datum.entriesOver (standardWith []) entries

end Configuration

end Quarterly
