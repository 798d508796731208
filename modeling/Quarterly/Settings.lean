import Quarterly.Schema.Check

/-!
# Settings of evaluations
-/

namespace Quarterly

open Schema

/-- How formulas are evaluated. -/
structure Settings where
  /-- The index of the newest quarter; by default the number of quarters in the window. -/
  windowSize : Option Int := none
  /-- How deep expressions and lambda calls may nest. -/
  maxDepth : Int := 64
  /-- Whether substitutions and steps are noted. -/
  collectTrace : Bool := false
  /-- Whether every look-up is noticed. -/
  verbose : Bool := false
  deriving Repr, DecidableEq

namespace Settings

/-- The name of the model in reports. -/
def modelName : String := "EvaluatorSettings"

def fields : List String := ["window_size", "max_depth", "collect_trace", "verbose"]

/-- The settings among the entries of a mapping; those left out have their defaults. -/
def ofEntries (entries : Keyed Datum) : Checked Settings := do
  let standard : Settings := {}
  let windowSize := withDefault entries "window_size" standard.windowSize
    (Check.optional (Check.positive "window_size"))
  let maxDepth := withDefault entries "max_depth" standard.maxDepth (Check.positive "max_depth")
  let collectTrace := withDefault entries "collect_trace" standard.collectTrace Check.boolean
  let verbose := withDefault entries "verbose" standard.verbose Check.boolean
  let (windowSize, maxDepth, collectTrace, verbose, _) ←
    windowSize.both (maxDepth.both (collectTrace.both (verbose.both (noExtras entries fields))))
  return ⟨windowSize, maxDepth, collectTrace, verbose⟩

/-- Settings given as data. -/
def check : Check Settings := fun d => do ofEntries (← Check.model modelName d)

/-- Settings as entries under their field names. -/
def toEntries (s : Settings) : Keyed Datum := [
  ("window_size", s.windowSize.elim .null .int), ("max_depth", .int s.maxDepth),
  ("collect_trace", .bool s.collectTrace), ("verbose", .bool s.verbose)]

/-- Settings with some of them given anew. -/
def overriddenBy (s : Settings) (overrides : Keyed Datum) : Checked Settings :=
  ofEntries (overrides.foldl (fun entries e => entries.put e.1 e.2) s.toEntries)

end Settings

end Quarterly
