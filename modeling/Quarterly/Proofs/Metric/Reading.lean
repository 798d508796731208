import Quarterly.Metric.Reading
import Quarterly.Proofs.Number.Range

/-!
# Readings without a decimal

Every text becomes a decimal or is known to be no number, and so does every double. An integer is
the only reading that can be refused, and it is refused for its size alone.
-/

namespace Quarterly.Metric

/-- A stored value beyond the range of the doubles. -/
def Oversized (reading : Option Reading) : Prop :=
  ∃ i : Int, reading = some (.number (.int i)) ∧ Binary64.overflowBound ≤ i.natAbs

namespace Reading

theorem toDouble?_eq_error_iff {reading : Reading} {cause : NumericFault} :
    reading.toDouble? = .error cause ↔ cause = .integerTooLarge ∧ Oversized (some reading) := by
  unfold Oversized
  cases reading with
  | text s => simp [toDouble?, pure, Except.pure]
  | number n =>
    have whole : (number n).toDouble? = n.toDouble.map some := by
      unfold toDouble?
      dsimp only
      cases n.toDouble <;> rfl
    rw [whole]
    have fault : n.toDouble = .error cause ↔ cause = .integerTooLarge ∧
        ∃ i : Int, n = .int i ∧ Binary64.overflowBound ≤ i.natAbs := Number.toDouble_eq_error_iff
    cases h : n.toDouble with
    | error cause' =>
      rw [h] at fault
      simpa [Except.map] using fault
    | ok x =>
      rw [h] at fault
      simpa [Except.map] using fault

/-- What comes after the reading of the number never fails. -/
theorem decimal?_eq_error_iff {reading : Reading} {name : Option String} {cause : NumericFault} :
    reading.decimal? name = .error cause ↔ reading.toDouble? = .error cause := by
  unfold decimal?
  cases reading.toDouble? with
  | error cause' => exact Iff.rfl
  | ok number =>
    have returns : ∀ m : Except NumericFault (Option Float), (∃ value, m = .ok value) →
        (m = .error cause ↔ (.ok number : Except NumericFault (Option Float)) = .error cause) := by
      rintro _ ⟨value, rfl⟩
      simp
    apply returns
    cases number with
    | none => exact ⟨_, rfl⟩
    | some x =>
      change ∃ value, (if x.isNaN = true then pure none
        else if (reading.isMarkedPercentage || name.any isPercentage) = true
          then pure (some (x / 100)) else pure (some x) :
            Except NumericFault (Option Float)) = .ok value
      split
      · exact ⟨_, rfl⟩
      · split <;> exact ⟨_, rfl⟩

end Reading

theorem normalizeValue_eq_error_iff {reading : Option Reading} {name : Option String}
    {cause : NumericFault} : normalizeValue reading name = .error cause ↔
      cause = .integerTooLarge ∧ Oversized reading := by
  cases reading with
  | none => simp [normalizeValue, Oversized, pure, Except.pure]
  | some reading =>
    exact Reading.decimal?_eq_error_iff.trans Reading.toDouble?_eq_error_iff

theorem exists_normalizeValue_iff {reading : Option Reading} {name : Option String} :
    (∃ value, normalizeValue reading name = .ok value) ↔ ¬ Oversized reading := by
  have fault : ∀ cause, normalizeValue reading name = .error cause ↔
      cause = .integerTooLarge ∧ Oversized reading := fun _ => normalizeValue_eq_error_iff
  cases h : normalizeValue reading name with
  | ok value =>
    rw [h] at fault
    simpa using fault .integerTooLarge
  | error cause =>
    have oversized := ((fault cause).mp h).2
    simpa using oversized

end Quarterly.Metric
