import Quarterly.Keyed
import Quarterly.Record
import Quarterly.Quarter.Order

/-!
# Metric tables

A table holds the metrics of the quarters in a window, newest quarter first. A reference names a
metric and an index: index `W` of a window of base `W` is the newest quarter, index `W - 1` the one
before it, and so on down. A metric is found under its exact name first and under the key of the
name second; an operating margin that is missing or empty gives way to a financing margin.
-/

namespace Quarterly.Metric

/-- The metrics of some quarters and the window over them. -/
structure Table (α : Type) where
  cells : Keyed (Keyed (Option α))
  /-- The quarters of the window, newest first. -/
  quarters : List String
  /-- The index of the newest quarter. -/
  windowSize : Int

/-- What a reference resolves to. -/
structure Lookup (α : Type) where
  value : Option α
  /-- The quarter that the index selects, unless it lies outside the window. -/
  quarter : Option String
  index : Int
  /-- Whether a financing margin took the place of an operating margin. -/
  usedFallback : Bool := false

/-- The value under a name or, if the name is not there, under its key. -/
def find? {α : Type} (metrics : Keyed (Option α)) (name : String) : Option α :=
  match metrics.get? name with
  | some value => value
  | none => (metrics.get? (normalizeKey name)).join

namespace Table

variable {α : Type}

/-- A table over given quarters. Without an explicit base the window ends at the number of
quarters. -/
def ofCells (cells : Keyed (Keyed (Option α))) (quarters : List String) (base : Option Int) :
    Table α :=
  ⟨cells, quarters, base.getD quarters.length⟩

/-- The metrics of a quarter. -/
def metricsOf (t : Table α) (quarter : String) : Keyed (Option α) :=
  (t.cells.get? quarter).getD []

/-- The quarter that an index selects. -/
def quarterAt? (t : Table α) (index : Int) : Option String :=
  let place := t.windowSize - index
  if place < 0 ∨ t.windowSize ≤ place then none else t.quarters[place.toNat]?

/-- Resolve a reference. -/
def resolve (t : Table α) (name : String) (index : Int) : Lookup α :=
  match t.quarterAt? index with
  | none => { value := none, quarter := none, index }
  | some quarter =>
    let metrics := t.metricsOf quarter
    match find? metrics name with
    | some value => { value := some value, quarter := some quarter, index }
    | none =>
      let fallback :=
        if isOperatingMargin name then financingMarginNames.findSome? (find? metrics) else none
      { value := fallback, quarter := some quarter, index, usedFallback := fallback.isSome }

end Table

/-- Why no table can be built from records. -/
inductive TableFault where
  | order (cause : Quarter.OrderFault)
  | numeric (cause : NumericFault)
  deriving Repr, DecidableEq

namespace TableFault

/-- The wording of the fault. -/
def message : TableFault → String
  | order cause => cause.message
  | numeric cause => cause.message

end TableFault

/-- Enter a record into the metrics of its quarter, under its name and under the key of the
name. -/
def enter (metrics : Keyed (Option Float)) (record : Record) :
    Except NumericFault (Keyed (Option Float)) := do
  let value ← normalizeValue record.metricValue (some record.metricName)
  return (metrics.put record.metricName value).put (normalizeKey record.metricName) value

/-- Enter records into the quarters of a window; records of other quarters are passed over. -/
def enterAll : Keyed (Keyed (Option Float)) → List Record →
    Except NumericFault (Keyed (Keyed (Option Float)))
  | cells, [] => pure cells
  | cells, record :: rest =>
    match cells.get? record.quarter with
    | none => enterAll cells rest
    | some metrics => do enterAll (cells.put record.quarter (← enter metrics record)) rest

/-- The quarters of a window: all of them, or those that are selected. An empty selection selects
all. -/
def window (sorted selected : List String) : List String :=
  if selected.isEmpty then sorted else sorted.filter selected.contains

/-- The table of some records, by a given reading of labels as dates. -/
def Table.ofRecordsBy (parse : String → Option Moment) (records : List Record)
    (selected : List String) (base : Option Int) : Except TableFault (Table Float) := do
  let sorted ← (Quarter.sortBy parse (records.map (·.quarter))).mapError .order
  let quarters := window sorted selected
  let cells ← (enterAll (quarters.map fun q => (q, [])) records).mapError .numeric
  return .ofCells cells quarters base

/-- The table of some records. -/
def Table.ofRecords (records : List Record) (selected : List String) (base : Option Int) :
    Except TableFault (Table Float) :=
  ofRecordsBy Quarter.parseLabel? records selected base

end Quarterly.Metric
