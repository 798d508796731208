import Mathlib.Tactic.Linarith
import Quarterly.Formula.Library.Math
import Quarterly.Proofs.Number.Integral

/-!
# Rounding to integers

Without a significance, FLOOR and CEILING divide by one and round the quotient. The division is one
of doubles: it rounds an integer to its double first. So the answers lie around their argument as
they should exactly if the argument is a double or an integer that is equal to one
(`floor_ceiling_around`); for all other integers both answers are the double next to them, on
whichever side it lies.
-/

namespace Quarterly.Formula.Library

variable {n : Number} {x : Float} {i : Int}

/-! ### Answers -/

theorem multiple_alone (name : String) (round : Float → Except NumericFault Int) (n : Number) :
    multiple name round [.number n] = .ok (nullOnFault do
      return .number (← (Number.int (← round (← n.div (.int 1)))).mul (.int 1))) := rfl

theorem multiple_of_quotient {name : String} {round : Float → Except NumericFault Int}
    (quotient : n.div (.int 1) = .ok x) (rounded : round x = .ok i) :
    multiple name round [.number n] = .ok (.int i) := by
  rw [multiple_alone, quotient]
  change Except.ok (nullOnFault do return .number (← (Number.int (← round x)).mul (.int 1))) = _
  rw [rounded]
  change Except.ok (Answer.int (i * 1)) = _
  rw [Int.mul_one]

/-- An integer beyond the range of the doubles has no quotient. -/
theorem multiple_of_oversized (name : String) (round : Float → Except NumericFault Int)
    (large : n.Oversized) : multiple name round [.number n] = .ok .null := by
  have overflows : n.QuotientOverflows (.int 1) := by
    cases n with
    | double x => exact large.elim
    | int i =>
      simp only [Number.QuotientOverflows, Int.natAbs_one, Nat.mul_one]
      exact large
  obtain ⟨cause, fault, -⟩ :=
    (Number.faults_div (a := n) (b := .int 1) (by decide)).exists_error overflows
  rw [multiple_alone, fault]
  rfl

/-! ### The integers around a number -/

/-- The integer parts of a number lie around itself; those of another integer do not. -/
theorem around_iff {q r : Rat} (apart : r = q ∨ ∃ i j : Int, q = i ∧ r = j) :
    ((r.floor : Rat) ≤ q ∧ q < r.floor + 1 ↔ r = q) ∧
      ((r.ceil : Rat) - 1 < q ∧ q ≤ r.ceil ↔ r = q) := by
  rcases apart with rfl | ⟨i, j, rfl, rfl⟩
  · have above := Rat.lt_floor_add_one r
    have below : (r.ceil : Rat) - 1 < r := sub_lt_iff_lt_add.mpr Rat.ceil_lt
    push_cast at above
    exact ⟨iff_of_true ⟨Rat.floor_le r, above⟩ rfl, iff_of_true ⟨below, Rat.le_ceil⟩ rfl⟩
  · rw [Rat.floor_intCast, Rat.ceil_intCast]
    norm_cast
    omega

/-- FLOOR and CEILING of a finite number alone: null beyond the range of the doubles, and else two
integers, which lie around the number exactly if it is a double or equal to one. -/
theorem floor_ceiling_around (n : Number) (finite : n.IsFinite) :
    (n.Oversized ∧ floor [.number n] = .ok .null ∧ ceiling [.number n] = .ok .null) ∨
      ∃ (q : Rat) (low high : Int), n.exactValue? = some q ∧
        floor [.number n] = .ok (.int low) ∧ ceiling [.number n] = .ok (.int high) ∧
        ((low : Rat) ≤ q ∧ q < low + 1 ↔ n.IsExact) ∧
        ((high : Rat) - 1 < q ∧ q ≤ high ↔ n.IsExact) ∧
        ∀ i : Int, q = i → (low = i ↔ n.IsExact) ∧ (high = i ↔ n.IsExact) := by
  by_cases large : n.Oversized
  · exact .inl ⟨large, multiple_of_oversized _ _ large, multiple_of_oversized _ _ large⟩
  · right
    obtain ⟨x, q, r, quotient, value, rounded, same, apart⟩ := Number.exists_div_one finite large
    obtain ⟨low, high⟩ := around_iff apart
    refine ⟨q, r.floor, r.ceil, value, multiple_of_quotient quotient (Binary64.floorDouble_eq rounded),
      multiple_of_quotient quotient (Binary64.ceilDouble_eq rounded), low.trans same,
      high.trans same, ?_⟩
    -- An integer is where it should be only as itself.
    rintro i rfl
    refine ⟨Iff.trans ?_ (low.trans same), Iff.trans ?_ (high.trans same)⟩
    · norm_cast
      omega
    · norm_cast
      omega

theorem floor_ceiling_around_halves :
    floor [.number (.double 2.5)] = .ok (.int 2) ∧
      ceiling [.number (.double 2.5)] = .ok (.int 3) := by
  have finite : (Number.double 2.5).IsFinite := by
    change (2.5 : Float).isFinite = true
    decide +kernel
  have half : (Number.double 2.5).exactValue? = some (5 / 2) := by
    change exactValue? 2.5 = some (5 / 2)
    decide +kernel
  rcases floor_ceiling_around (.double 2.5) finite with ⟨large, -⟩ | h
  · exact large.elim
  · obtain ⟨q, low, high, value, floors, ceils, around, around', -⟩ := h
    obtain rfl : 5 / 2 = q := Option.some.inj (half.symm.trans value)
    obtain ⟨atMost, above⟩ := around.mpr trivial
    obtain ⟨below, atLeast⟩ := around'.mpr trivial
    have twice : 2 * low ≤ 5 ∧ 5 < 2 * (low + 1) ∧ 2 * (high - 1) < 5 ∧ 5 ≤ 2 * high := by
      have onRat : 2 * (low : Rat) ≤ 5 ∧ 5 < 2 * ((low : Rat) + 1) ∧ 2 * ((high : Rat) - 1) < 5 ∧
          5 ≤ 2 * (high : Rat) := by
        refine ⟨?_, ?_, ?_, ?_⟩ <;> linarith
      exact_mod_cast onRat
    obtain rfl : low = 2 := by omega
    obtain rfl : high = 3 := by omega
    exact ⟨floors, ceils⟩

/-- An odd integer beyond fifty-three digits lies between two doubles. It is rounded up by both
functions here. -/
theorem floor_above_argument : ∃ i : Int, i = 9007199254740996 ∧
    floor [.number (.int 9007199254740995)] = .ok (.int i) ∧
    ceiling [.number (.int 9007199254740995)] = .ok (.int i) ∧
    ¬ (i ≤ 9007199254740995 ∧ 9007199254740995 < i + 1) ∧
    ¬ (i - 1 < 9007199254740995 ∧ 9007199254740995 ≤ i) := by
  have quotient := Number.int_div_one (i := 9007199254740995) (by decide +kernel)
  have value : exactValue? (Binary64.nearest (decide ((9007199254740995 : Int) < 0))
      (9007199254740995 : Int).natAbs 1) = some (9007199254740996 : Int) := by
    decide +kernel
  refine ⟨_, rfl, ?_, ?_, by decide, by decide⟩
  · have floored := Binary64.floorDouble_eq value
    rw [Rat.floor_intCast] at floored
    exact multiple_of_quotient quotient floored
  · have ceiled := Binary64.ceilDouble_eq value
    rw [Rat.ceil_intCast] at ceiled
    exact multiple_of_quotient quotient ceiled

end Quarterly.Formula.Library
