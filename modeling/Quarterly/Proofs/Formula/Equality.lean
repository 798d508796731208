import Quarterly.Formula.Operator
import Quarterly.Metric.Reading
import Quarterly.Proofs.Formula.NumericFaults
import Quarterly.Proofs.Number.Difference

/-!
# Equality of values

Between numbers, equality asks whether their difference is small and inequality whether it is not,
so exactly one of them holds as long as the difference is a number (`comparison_of_difference`). It
is none with NaN and between an infinity and itself, and there neither holds. Values of other kinds
are equal or unequal outright.
-/

namespace Quarterly.Formula

open Quarterly.Metric (normalizeValue)

/-! ### The tolerance -/

theorem not_isNaN_tolerance : ¬ (Number.double tolerance).IsNaN := by
  decide

theorem less_tolerance_of_isZero {d : Number} (h : d.IsZero) :
    d.less (.double tolerance) = true := by
  rcases h with rfl | rfl <;> decide

/-! ### Comparing numbers -/

section

variable {a b d : Number}

theorem comparison_numbers (op : ComparisonOp) (h : a.sub b = .ok d) :
    comparison op (.number a) (.number b) = op.onNumbers a b d := by
  change (do op.onNumbers a b (← a.sub b)) = _
  rw [h]
  rfl

/-- Where two numbers have a difference, they are either equal or unequal. -/
theorem comparison_of_difference (h : a.sub b = .ok d) (difference : ¬ a.NoDifference b) :
    comparison .unequal (.number a) (.number b) = .ok !(d.abs.less (.double tolerance)) := by
  have number : ¬ d.abs.IsNaN := by rwa [Number.isNaN_abs, Number.isNaN_sub_iff h]
  rw [comparison_numbers _ h]
  exact congrArg Except.ok (Number.atMost_eq_not_less not_isNaN_tolerance number)

/-- Where they have none, they are neither. -/
theorem comparison_of_noDifference (h : a.sub b = .ok d) (none : a.NoDifference b) :
    comparison .equal (.number a) (.number b) = .ok false ∧
      comparison .unequal (.number a) (.number b) = .ok false := by
  have notNumber : d.abs.IsNaN := Number.isNaN_abs.mpr ((Number.isNaN_sub_iff h).mpr none)
  rw [comparison_numbers _ h, comparison_numbers _ h]
  exact ⟨congrArg Except.ok (Number.not_ordered_of_isNaN (.inl notNumber)).1,
    congrArg Except.ok (Number.not_ordered_of_isNaN (.inr notNumber)).2.1⟩

theorem comparison_equal_numbers (a b : Number) : comparison .equal (.number a) (.number b) =
    ((a.sub b).map Number.abs).map fun size => size.less (.double tolerance) := by
  change (do ComparisonOp.equal.onNumbers a b (← a.sub b)) = _
  cases a.sub b <;> rfl

end

/-! ### Comparing values -/

namespace Value

/-- Two numbers whose difference is NaN. -/
def NoDifference : Value → Value → Prop
  | number a, number b => a.NoDifference b
  | _, _ => False

theorem strictEqual_comm (v w : Value) : v.strictEqual w = w.strictEqual v := by
  cases v with
  | number a => cases w with
    | number b => exact Number.equal_comm
    | _ => rfl
  | null | bool a | text a | array i items | lambda i f =>
    cases w <;> first | rfl | exact BEq.comm

end Value

section

variable {v w : Value}

/-- Values of which one is no number. -/
theorem comparison_others (hv : v.isNull = false) (hw : w.isNull = false)
    (h : ∀ a b, v = .number a → w ≠ .number b) (op : ComparisonOp) :
    comparison op v w = .ok (op.onOthers v w) := by
  unfold comparison
  split
  · cases hv
  · cases hw
  · exact absurd rfl (h _ _ rfl)
  · rfl

theorem comparison_equal_comm (hv : v.isNull = false) (hw : w.isNull = false) :
    comparison .equal w v = comparison .equal v w := by
  by_cases numbers : ∃ a b, v = .number a ∧ w = .number b
  · obtain ⟨a, b, rfl, rfl⟩ := numbers
    rw [comparison_equal_numbers, comparison_equal_numbers, Number.abs_sub_comm]
  · rw [comparison_others hv hw fun a b ha hb => numbers ⟨a, b, ha, hb⟩,
      comparison_others hw hv fun a b ha hb => numbers ⟨b, a, hb, ha⟩]
    exact congrArg Except.ok (w.strictEqual_comm v)

/-- Two values are either equal or unequal, unless they are numbers without a difference. -/
theorem comparison_decides (hv : v.isNull = false) (hw : w.isNull = false)
    (small : ¬ v.Clashes w) (difference : ¬ v.NoDifference w) :
    ∃ b, comparison .equal v w = .ok b ∧ comparison .unequal v w = .ok !b := by
  by_cases numbers : ∃ a b, v = .number a ∧ w = .number b
  · obtain ⟨a, b, rfl, rfl⟩ := numbers
    obtain ⟨d, hd⟩ := (a.faults_sub b).exists_ok small
    exact ⟨_, comparison_numbers .equal hd, comparison_of_difference hd difference⟩
  · have others := comparison_others hv hw fun a b ha hb => numbers ⟨a, b, ha, hb⟩
    exact ⟨_, others .equal, others .unequal⟩

/-- Numbers without a difference are neither. -/
theorem comparison_undecided (small : ¬ v.Clashes w) (none : v.NoDifference w) :
    comparison .equal v w = .ok false ∧ comparison .unequal v w = .ok false := by
  cases v with
  | number a =>
    cases w with
    | number b =>
      obtain ⟨d, hd⟩ := (a.faults_sub b).exists_ok small
      exact comparison_of_noDifference hd none
    | _ => exact none.elim
  | _ => exact none.elim

theorem comparison_notEqual (v w : Value) : comparison .notEqual v w = comparison .unequal v w := by
  unfold comparison
  split <;> rfl

theorem comparison_self (hv : v.isNull = false) (difference : ¬ v.NoDifference v) :
    comparison .equal v v = .ok true := by
  cases v with
  | null => cases hv
  | number a =>
    obtain ⟨d, hd⟩ : ∃ d, a.sub a = .ok d := by cases a <;> exact ⟨_, rfl⟩
    have number : ¬ a.IsNaN := fun nan => difference (.inl nan)
    have zero : d.abs.IsZero := by
      refine Number.abs_of_equal (Number.equal_self number) (fun same => ?_) hd
      exact difference (.inr (.inr same))
    rw [comparison_numbers _ hd]
    exact congrArg Except.ok (less_tolerance_of_isZero zero)
  | bool b | text s | array i items | lambda i f =>
    exact congrArg Except.ok (beq_self_eq_true _)

end

/-! ### Comparison by symbol -/

theorem comparisonBySymbol_symbol (op : ComparisonOp) (v w : Value) :
    comparisonBySymbol op.symbol v w = liftM (comparison op v w) := by
  have found : ComparisonOp.ofSymbol? op.symbol = some op := by cases op <;> rfl
  unfold comparisonBySymbol
  rw [found]

/-- Of two values that are not null, exactly one of equality and inequality holds, unless they are
two numbers without a difference: NaN or one infinity twice. For these neither holds. Both ways to
write inequality mean the same, equality is symmetric, and a value is equal to itself if it has a
difference to itself. A comparison faults just when an integer out of range meets a double. -/
theorem equality_decides {v w : Value} (hv : v.isNull = false) (hw : w.isNull = false) :
    comparisonBySymbol "!=" v w = comparisonBySymbol "<>" v w ∧
    comparisonBySymbol "=" w v = comparisonBySymbol "=" v w ∧
    FaultsWhen Fault.IsOverflow (v.Clashes w) (comparisonBySymbol "=" v w) ∧
    FaultsWhen Fault.IsOverflow (v.Clashes w) (comparisonBySymbol "<>" v w) ∧
    (¬ v.Clashes w → ¬ v.NoDifference w →
      ∃ b, comparisonBySymbol "=" v w = .ok b ∧ comparisonBySymbol "<>" v w = .ok !b) ∧
    (¬ v.Clashes w → v.NoDifference w →
      comparisonBySymbol "=" v w = .ok false ∧ comparisonBySymbol "<>" v w = .ok false) ∧
    (¬ v.NoDifference v → comparisonBySymbol "=" v v = .ok true) := by
  have symbols (v w : Value) : comparisonBySymbol "=" v w = liftM (comparison .equal v w) ∧
      comparisonBySymbol "<>" v w = liftM (comparison .unequal v w) ∧
      comparisonBySymbol "!=" v w = liftM (comparison .notEqual v w) :=
    ⟨comparisonBySymbol_symbol .equal v w, comparisonBySymbol_symbol .unequal v w,
      comparisonBySymbol_symbol .notEqual v w⟩
  have ⟨equal, unequal, notEqual⟩ := symbols v w
  have faults (op : ComparisonOp) (unordered : op = .equal ∨ op = .unequal) :
      FaultsWhen NumericFault.IsOverflow (v.Clashes w) (comparison op v w) := by
    refine (faults_comparison op v w).congr ?_
    cases v <;> cases w <;> rcases unordered with rfl | rfl <;>
      simp [Value.Clashes, ComparisonOp.Overflows]
  rw [equal, unequal, notEqual, (symbols w v).1, (symbols v v).1]
  refine ⟨?_, by rw [comparison_equal_comm hv hw], (faults _ (.inl rfl)).lift,
    (faults _ (.inr rfl)).lift, fun small difference => ?_, fun small none => ?_,
    fun difference => by rw [comparison_self hv difference]; rfl⟩
  · rw [comparison_notEqual]
  · obtain ⟨b, he, hu⟩ := comparison_decides hv hw small difference
    rw [he, hu]
    exact ⟨b, rfl, rfl⟩
  · have ⟨he, hu⟩ := comparison_undecided small none
    rw [he, hu]
    exact ⟨rfl, rfl⟩

theorem equality_decides_threes :
    (Value.number (.int 3)).isNull = false ∧ (Value.number (.double 3)).isNull = false ∧
    ¬ (Value.number (.int 3)).Clashes (.number (.double 3)) ∧
    ¬ (Value.number (.int 3)).NoDifference (.number (.double 3)) ∧
    comparisonBySymbol "=" (.number (.int 3)) (.number (.double 3)) = .ok true ∧
    comparisonBySymbol "<>" (.number (.int 3)) (.number (.double 3)) = .ok false := by
  have small : ¬ (Value.number (.int 3)).Clashes (.number (.double 3)) := by
    change ¬ (Number.int 3).Clashes (.double 3)
    decide +kernel
  have difference : ¬ (Value.number (.int 3)).NoDifference (.number (.double 3)) := by
    change ¬ (Number.int 3).NoDifference (.double 3)
    decide
  have same : (comparisonBySymbol "=" (.number (.int 3)) (.number (.double 3))).toOption =
      some true := by decide
  obtain ⟨-, -, -, -, decides, -, -⟩ := equality_decides
    (v := .number (.int 3)) (w := .number (.double 3)) rfl rfl
  obtain ⟨b, equal, unequal⟩ := decides small difference
  rw [equal] at same
  obtain rfl : b = true := Option.some.inj same
  exact ⟨rfl, rfl, small, difference, equal, unequal⟩

/-- Sales that are beyond all doubles count as infinite, and as neither equal nor unequal to
themselves. -/
theorem enormousSales_neither : ∃ x,
    normalizeValue (some (.text "1e999")) (some "Sales") = .ok (some x) ∧ x.isNaN = false ∧
    comparisonBySymbol "=" (.number (.double x)) (.number (.double x)) = .ok false ∧
    comparisonBySymbol "<>" (.number (.double x)) (.number (.double x)) = .ok false := by
  refine ⟨.ofBits 0x7ff0000000000000, ?_, by decide +kernel, ?_, ?_⟩
  · have value : (normalizeValue (some (.text "1e999")) (some "Sales")).toOption =
        some (some (.ofBits 0x7ff0000000000000)) := by decide +kernel
    cases h : normalizeValue (some (.text "1e999")) (some "Sales") with
    | error cause =>
      rw [h] at value
      cases value
    | ok value' =>
      rw [h] at value
      exact congrArg Except.ok (Option.some.inj value)
  · rfl
  · rfl

end Quarterly.Formula
