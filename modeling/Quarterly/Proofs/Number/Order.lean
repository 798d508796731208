import Quarterly.Proofs.Number.Finite

/-!
# The order of numbers

Integers and doubles compare in one order in which only NaN has no place. Doubles compare as they
are unpacked (`order_doubles`), where swapping the operands turns the answer round; so it is for
numbers (`order_swap`), and unless one of two numbers is NaN, at most the one or less than the other
way round (`atMost_eq_not_less`).
-/

namespace Quarterly

open Float.Model (Format UnpackedFloat)
open Float.Model.UnpackedFloat

namespace Binary64

/-! ### Unpacked doubles -/

/-- The order of two mantissas with their exponents, the other way round. -/
theorem swap_compare_then (e e' : Int) (m m' : Nat) :
    ((compare e e').then (compare m m')).swap = (compare e' e).then (compare m' m) := by
  rw [Ordering.swap_then, Int.compare_swap, Nat.compare_swap]

theorem compare_swap (u v : UnpackedFloat) : v.compare u = (u.compare v).map Ordering.swap := by
  cases u with
  | notANumber => cases v <;> rfl
  | infinity s =>
    cases s <;> cases v with
    | infinity s' => cases s' <;> rfl
    | _ => rfl
  | zero s =>
    cases v with
    | infinity s' | finite s' => cases s' <;> rfl
    | _ => rfl
  | finite s m e pos =>
    cases s <;> cases v with
    | infinity s' => cases s' <;> rfl
    | finite s' m' e' pos' =>
      -- Numbers below zero compare the other way round.
      cases s' <;> first
        | rfl
        | exact congrArg some (swap_compare_then e e' m m').symm
        | exact congrArg (some ·.swap) (swap_compare_then e e' m m').symm
    | _ => rfl

/-- Only NaN compares with nothing. -/
theorem compare_eq_none_iff {u v : UnpackedFloat} :
    u.compare v = none ↔ u.isNaN = true ∨ v.isNaN = true := by
  cases u with
  | notANumber => exact iff_of_true (by cases v <;> rfl) (.inl rfl)
  | infinity s | zero s | finite s =>
    cases v with
    | notANumber => exact iff_of_true (by cases s <;> rfl) (.inr rfl)
    | infinity s' | zero s' | finite s' =>
      refine iff_of_false (fun none => ?_) (by rintro (h | h) <;> cases h)
      cases s <;> cases s' <;> cases none

theorem compare_self {u : UnpackedFloat} (h : u.isNaN = false) : u.compare u = some .eq := by
  cases u with
  | notANumber => cases h
  | infinity s | zero s => cases s <;> rfl
  | finite s m e pos =>
    have same : (compare e e).then (compare m m) = .eq := by simp
    cases s with
    | positive => exact congrArg some same
    | negative => exact congrArg (some ·.swap) same

/-! ### Exact values -/

theorem ofFloat_eq_nan_iff {x : Float} : ofFloat x = .nan ↔ x.isNaN = true := by
  change _ ↔ (unpack Format.binary64 (bits x)).isNaN = true
  rw [ofFloat_eq]
  cases unpack Format.binary64 (bits x) with
  | notANumber => exact iff_of_true rfl rfl
  | infinity s | zero s | finite s => exact iff_of_false nofun nofun

theorem toRat?_finite (negative : Bool) (mantissa : Nat) (exponent : Int) :
    (finite negative mantissa exponent).toRat? =
      some (((if negative then -mantissa else mantissa : Int) : Rat) * 2 ^ exponent) := by
  unfold toRat?
  dsimp only
  generalize (if negative then -mantissa else mantissa : Int) = signed
  split
  · obtain ⟨k, rfl⟩ : ∃ k : Nat, exponent = k := ⟨exponent.toNat, by omega⟩
    rw [Rat.mkRat_eq_div, Int.toNat_natCast, Nat.one_shiftLeft, zpow_natCast]
    push_cast
    rw [div_one]
  · obtain ⟨k, rfl⟩ : ∃ k : Nat, exponent = -k := ⟨(-exponent).toNat, by omega⟩
    rw [Rat.mkRat_eq_div, Int.neg_neg, Int.toNat_natCast, Nat.one_shiftLeft, zpow_neg,
      zpow_natCast, div_eq_mul_inv]
    push_cast
    rfl

end Binary64

namespace Number

open Binary64 (bits)

/-! ### Doubles -/

theorem lt_iff_compare {x y : Float} : x < y ↔
    (unpack Format.binary64 (bits x)).compare (unpack Format.binary64 (bits y)) = some .lt :=
  decide_eq_true_iff.trans beq_iff_eq

theorem beq_iff_compare {x y : Float} : (x == y) = true ↔
    (unpack Format.binary64 (bits x)).compare (unpack Format.binary64 (bits y)) = some .eq := by
  change ((unpack Format.binary64 (bits x)).compare (unpack Format.binary64 (bits y)) ==
    some .eq) = true ↔ _
  exact beq_iff_eq

theorem order_doubles (x y : Float) : order (double x) (double y) =
    (unpack Format.binary64 (bits x)).compare (unpack Format.binary64 (bits y)) := by
  have swap := Binary64.compare_swap (unpack Format.binary64 (bits x))
    (unpack Format.binary64 (bits y))
  unfold order
  dsimp only
  simp only [lt_iff_compare, beq_iff_compare, swap]
  cases (unpack Format.binary64 (bits x)).compare (unpack Format.binary64 (bits y)) with
  | none => rfl
  | some relation => cases relation <;> rfl

/-! ### Integers and doubles -/

/-- A number that is NaN. -/
def IsNaN : Number → Prop
  | int _ => False
  | double x => x.isNaN = true

instance : DecidablePred IsNaN
  | int _ => inferInstanceAs (Decidable False)
  | double x => inferInstanceAs (Decidable (x.isNaN = true))

/-- An integer has a place in the order to every double but NaN. -/
theorem compareIntDouble_eq_none_iff {i : Int} {x : Float} :
    compareIntDouble i x = none ↔ x.isNaN = true := by
  rw [← Binary64.ofFloat_eq_nan_iff]
  unfold compareIntDouble
  cases content : Binary64.ofFloat x with
  | nan => simp
  | infinite negative => simp
  | finite negative mantissa exponent => simp [Binary64.toRat?_finite]

theorem order_swap (a b : Number) : b.order a = (a.order b).map Ordering.swap := by
  have twice (relation : Option Ordering) :
      (relation.map Ordering.swap).map Ordering.swap = relation := by
    cases relation <;> simp
  cases a with
  | int i =>
    cases b with
    | int j => exact congrArg some (Int.compare_swap i j).symm
    | double y => rfl
  | double x =>
    cases b with
    | int j => exact (twice _).symm
    | double y => rw [order_doubles, order_doubles, Binary64.compare_swap]

theorem order_eq_none_iff {a b : Number} : a.order b = none ↔ a.IsNaN ∨ b.IsNaN := by
  cases a with
  | int i =>
    cases b with
    | int j => simp [order, IsNaN]
    | double y => simpa [order, IsNaN] using compareIntDouble_eq_none_iff
  | double x =>
    cases b with
    | int j => simpa [order, IsNaN] using compareIntDouble_eq_none_iff
    | double y =>
      rw [order_doubles]
      exact Binary64.compare_eq_none_iff

/-! ### Equality and order -/

variable {a b : Number}

theorem equal_comm : a.equal b = b.equal a := by
  unfold equal
  rw [order_swap a b]
  cases a.order b with
  | none => rfl
  | some relation => cases relation <;> rfl

theorem equal_self (h : ¬ a.IsNaN) : a.equal a = true := by
  have compares : a.order a ≠ none := mt order_eq_none_iff.mp (by simp [h])
  have swap := order_swap a a
  unfold equal
  cases relation : a.order a with
  | none => exact absurd relation compares
  | some relation' =>
    rw [relation] at swap
    cases relation' with
    | eq => rfl
    | lt | gt => cases swap

/-- Where two numbers compare, at most the one is not less than the other way round. -/
theorem atMost_eq_not_less (ha : ¬ a.IsNaN) (hb : ¬ b.IsNaN) : a.atMost b = !(b.less a) := by
  have compares : a.order b ≠ none := mt order_eq_none_iff.mp (by simp [ha, hb])
  unfold atMost less equal
  rw [order_swap a b]
  cases h : a.order b with
  | none => exact absurd h compares
  | some relation => cases relation <;> rfl

/-- With NaN neither order holds. -/
theorem not_ordered_of_isNaN (h : a.IsNaN ∨ b.IsNaN) :
    a.less b = false ∧ a.atMost b = false ∧ a.equal b = false := by
  have unordered := order_eq_none_iff.mpr h
  unfold atMost less equal
  rw [unordered]
  decide

end Number

end Quarterly
