import Mathlib.Algebra.Group.Int.Defs
import Quarterly.Proofs.Metric.Building
import Quarterly.Signal

/-!
# Which data give a signal

Formulas never fail, and most data that make no table still give a signal, the absent one: data that
are no records, and quarters that cannot be put in order. The exception is an integer beyond the
range of the doubles. Where the table would hold it, there is no signal of any kind.
-/

namespace Quarterly

open Quarterly.Metric (Oversized)

/-- Data are records with quarters in order, and the window over them holds a value beyond the range
of the doubles. -/
def OutOfRange (data : List Datum) (selected : List String) : Prop :=
  ∃ records sorted, checkRecords data = .ok records ∧
    Quarter.sort (records.map (·.quarter)) = .ok sorted ∧
    ∃ record ∈ records, (selected = [] ∨ record.quarter ∈ selected) ∧ Oversized record.metricValue

variable {data : List Datum} {selected : List String} {settings : Settings}

/-! ### Evaluators -/

/-- Data that are no records are refused as such. -/
theorem invalidRecord_of_checkRecords {fault : EvaluatorFault}
    (h : checkRecords data = .error fault) : ∃ issues, fault = .invalidRecord issues := by
  induction data with
  | nil => cases h
  | cons d rest ih =>
    unfold checkRecords at h ih
    rw [List.mapM_cons] at h
    rcases Except.bind_eq_error.mp h with first | ⟨record, -, later⟩
    · obtain ⟨issues, -, rfl⟩ := Except.mapError_eq_error.mp first
      exact ⟨issues, rfl⟩
    · rcases Except.bind_eq_error.mp later with others | ⟨_, _, ⟨⟩⟩
      exact ih others

namespace Evaluator

theorem ofRecords_eq_error_iff {records : List Record} {fault : Metric.TableFault} :
    Evaluator.ofRecords records selected settings = .error fault ↔
      Metric.Table.ofRecords records selected settings.windowSize = .error fault := by
  unfold Evaluator.ofRecords
  cases Metric.Table.ofRecords records selected settings.windowSize with
  | error cause =>
    constructor
    · intro h
      cases h
      rfl
    · intro h
      cases h
      rfl
  | ok t =>
    constructor
    · intro h
      cases h
    · intro h
      cases h

theorem ofData_of_checkRecords {records : List Record} (h : checkRecords data = .ok records) :
    Evaluator.ofData data selected settings =
      (Evaluator.ofRecords records selected settings).mapError .table := by
  unfold Evaluator.ofData
  rw [h]
  rfl

theorem ofData_eq_numeric_iff {cause : NumericFault} :
    Evaluator.ofData data selected settings = .error (.table (.numeric cause)) ↔
      cause = .integerTooLarge ∧ OutOfRange data selected := by
  unfold OutOfRange
  cases hr : checkRecords data with
  | error fault =>
    obtain ⟨issues, rfl⟩ := invalidRecord_of_checkRecords hr
    have refused : Evaluator.ofData data selected settings = .error (.invalidRecord issues) := by
      unfold Evaluator.ofData
      rw [hr]
      rfl
    simp [refused]
  | ok records =>
    have numeric : Evaluator.ofData data selected settings = .error (.table (.numeric cause)) ↔
        Evaluator.ofRecords records selected settings = .error (.numeric cause) := by
      rw [ofData_of_checkRecords hr]
      cases Evaluator.ofRecords records selected settings <;> simp [Except.mapError]
    rw [numeric, ofRecords_eq_error_iff, Metric.ofRecords_eq_numeric_iff]
    constructor
    · rintro ⟨large, ⟨sorted, hs⟩, oversized⟩
      exact ⟨large, records, sorted, rfl, hs, oversized⟩
    · rintro ⟨large, records', sorted, same, hs, oversized⟩
      cases same
      exact ⟨large, ⟨sorted, hs⟩, oversized⟩

end Evaluator

/-! ### Signals -/

/-- A signal is refused only by an evaluator that is refused over a number. -/
theorem ofEvaluator_eq_error_iff {built : Except EvaluatorFault Evaluator} {formula : String}
    {cause : NumericFault} :
    Signal.ofEvaluator built formula = .error cause ↔ built = .error (.table (.numeric cause)) := by
  unfold Signal.ofEvaluator
  split
  · exact ⟨fun h => (nomatch h), fun h => (nomatch h)⟩
  · constructor
    · intro h
      cases h
      rfl
    · intro h
      cases h
      rfl
  · rename_i other
    constructor
    · intro h
      cases h
    · intro h
      cases h
      exact absurd rfl (other cause)

theorem evaluateSignal_eq_error_iff {formula : String} {cause : NumericFault} :
    evaluateSignal data formula selected settings = .error cause ↔
      cause = .integerTooLarge ∧ OutOfRange data selected := by
  unfold evaluateSignal
  split
  · rename_i empty
    obtain rfl := List.isEmpty_iff.mp empty
    constructor
    · intro h
      cases h
    · rintro ⟨_, records, _, checked, _, record, mem, _⟩
      cases checked
      cases mem
  · exact ofEvaluator_eq_error_iff.trans Evaluator.ofData_eq_numeric_iff

/-- The sales of a company as data, with a number of four hundred and one digits. -/
def enormousSales : List Datum := [
  .mapping [("ticker", .text "X"), ("quarter", .text "Sep 2024"), ("metricName", .text "Sales"),
    ("metricValue", .int (10 ^ 400))]]

end Quarterly
