import Quarterly.Record
import Quarterly.Sheet.Delimited
import Quarterly.Sheet.Objects
import Quarterly.Storage

/-!
# Record files

Records are kept as a sheet with one row for each value, in delimited text or JSON; the ending of
the file tells which. Rows that are no records are skipped, and noted with their label.
-/

namespace Quarterly

/-- Why no records can be loaded. -/
inductive LoadFault where
  | noFile (path : Path)
  | unsupported (suffix : String)
  | delimited (cause : Sheet.DelimitedFault)
  /-- A JSON file is not a list of objects. -/
  | notObjects
  | missingColumns (missing found : List String)
  | storage (cause : StorageFault)
  deriving Repr, DecidableEq

/-- A row that was skipped, with the number of issues it has. -/
structure SkippedRow where
  label : String
  issues : Nat
  deriving Repr, DecidableEq

namespace SkippedRow

/-- The wording of a notice about the row. -/
def message (r : SkippedRow) : String :=
  "[records_from_frame] Skipping row " ++ r.label ++ ": " ++ toString r.issues ++
    " validation error(s)"

end SkippedRow

/-- What a file of records holds. -/
structure RecordFile where
  records : List Record
  skipped : List SkippedRow

namespace RecordFile

/-- The columns that have a second name, and the name that is used. -/
def columnNames : Keyed String := [
  ("companyId", "company_id"), ("metricName", "metric_name"), ("metricValue", "metric_value"),
  ("scrapeTimestamp", "scrape_timestamp")]

/-- The columns that have to be there. -/
def neededColumns : List String := ["ticker", "quarter", "metric_name"]

/-- The columns that are read. -/
def knownColumns : List String :=
  ["ticker", "company_id", "quarter", "metric_name", "metric_value", "scrape_timestamp"]

/-- Texts as they are listed in messages. -/
def listed (texts : List String) : String := (Datum.list (texts.map .text)).inner

end RecordFile

namespace LoadFault

/-- The wording of a fault. -/
def message : LoadFault → String
  | noFile path => "Data file '" ++ path.text ++ "' does not exist."
  | unsupported suffix =>
    "Unsupported data file type: " ++ suffix ++ ". Use .csv or .json."
  | delimited cause => cause.message
  | notObjects => "Expected object or value"
  | missingColumns missing found =>
    "Data file must contain columns " ++ RecordFile.listed RecordFile.neededColumns ++
      ". Missing: " ++ RecordFile.listed missing ++ ". Found columns: " ++ RecordFile.listed found
  | storage cause => cause.message

end LoadFault

namespace RecordFile

/-- The sheet in a text, for the ending of its file. -/
def sheetOf (suffix text : String) : Except LoadFault Sheet :=
  if suffix = ".csv" then (Sheet.ofDelimited text).mapError .delimited
  else if suffix = ".json" then
    match Sheet.ofJson? text with
    | some s => pure s
    | none => throw .notObjects
  else throw (.unsupported suffix)

/-- A sheet with the columns of records. -/
def withColumns (s : Sheet) : Except LoadFault Sheet :=
  let s := s.renamed columnNames
  match s.missing neededColumns with
  | [] => pure s
  | missing => throw (.missingColumns missing s.columns)

/-- Whether a row belongs to one of the companies that are asked for. No choice asks for all. -/
def isWanted (tickers : List String) (entries : Keyed Datum) : Bool :=
  tickers.isEmpty || match entries.get? "ticker" with
    | some (.text s) => tickers.contains s
    | _ => false

/-- The records in some rows, with the rows that are none. -/
def ofRows : List (String × Keyed Datum) → RecordFile
  | [] => ⟨[], []⟩
  | (label, entries) :: rest =>
    let others := ofRows rest
    match Record.check (.mapping entries) with
    | .ok record => { others with records := record :: others.records }
    | .error issues => { others with skipped := ⟨label, issues.length⟩ :: others.skipped }

/-- The records of some companies in a sheet. -/
def ofSheet (s : Sheet) (tickers : List String) : RecordFile :=
  let rows := s.rows.map fun row => (row.label, s.entriesOf knownColumns row)
  ofRows (rows.filter fun row => isWanted tickers row.2)

/-- The records of some companies in the text of a file with an ending. -/
def read (suffix text : String) (tickers : List String) : Except LoadFault RecordFile := do
  return ofSheet (← withColumns (← sheetOf suffix text)) tickers

/-- Load the records of some companies. -/
def load {m : Type → Type} [Monad m] [Storage m] (path : String) (tickers : List String) :
    m (Except LoadFault RecordFile) := do
  let path := Path.absoluteIn (← Storage.base) (.ofText path)
  let suffix := path.suffix
  match ← Storage.find path with
  | .absent => return .error (.noFile path)
  | .folder =>
    if suffix = ".csv" ∨ suffix = ".json" then return .error (.storage (.isAFolder path))
    else return .error (.unsupported suffix)
  | .file text => return read suffix text tickers

end RecordFile

namespace Record

/-- Records by company, companies and records in the order in which they come. -/
def byTicker (records : List Record) : Keyed (List Record) :=
  records.foldl (fun groups r => Keyed.update groups r.ticker fun known => known.getD [] ++ [r]) []

end Record

end Quarterly
