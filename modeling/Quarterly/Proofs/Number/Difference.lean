import Quarterly.Proofs.Number.Representable

/-!
# Differences of numbers

Numbers count as equal when the size of their difference is small, so what matters of a difference
is its size and whether it has one. The size does not depend on the order of the operands
(`abs_sub_comm`). A difference is NaN if an operand is, and the difference of an infinity from
itself is too (`isNaN_sub_iff`); apart from these, numbers that are exactly equal differ by zero
(`abs_of_equal`).
-/

namespace Quarterly

open Float.Model (Format UnpackedFloat)
open Float.Model.UnpackedFloat

namespace Binary64

/-! ### Signs of what is packed -/

/-- Doubles whose other fields agree have one size. -/
theorem abs_unpack {b b' : BitVec Format.binary64.numBits}
    (exponent : unpackExponent b = unpackExponent b')
    (mantissa : unpackMantissa b = unpackMantissa b') :
    (unpack Format.binary64 b).abs = (unpack Format.binary64 b').abs := by
  have finite {sign sign' : Sign} {m m' : Nat} {e e' : Int} {pos : 0 < m} {pos' : 0 < m'}
      (digits : m = m') (place : e = e') :
      (UnpackedFloat.finite sign m e pos).abs = (UnpackedFloat.finite sign' m' e' pos').abs := by
    subst digits place
    rfl
  unfold unpack
  by_cases full : unpackExponent b' = -1#_
  · rw [if_pos (exponent.trans full), if_pos full]
    by_cases empty : unpackMantissa b' = 0#_
    · rw [if_pos (mantissa.trans empty), if_pos empty]
      rfl
    · rw [if_neg (mantissa ▸ empty), if_neg empty]
  rw [if_neg (exponent ▸ full), if_neg full]
  by_cases least : unpackExponent b' = 0#_
  · rw [if_pos (exponent.trans least), if_pos least]
    by_cases empty : unpackMantissa b' = 0#_
    · rw [dif_pos (mantissa.trans empty), dif_pos empty]
      rfl
    · rw [dif_neg (mantissa ▸ empty), dif_neg empty]
      exact finite (by rw [mantissa]) (by rw [exponent])
  · rw [if_neg (exponent ▸ least), if_neg least]
    exact finite (by rw [mantissa]) (by rw [exponent])

theorem abs_unpack_packComponents (sign sign' : Sign) (exponent mantissa) :
    (unpack Format.binary64 (packComponents Format.binary64 sign exponent mantissa)).abs =
      (unpack Format.binary64 (packComponents Format.binary64 sign' exponent mantissa)).abs :=
  abs_unpack (by rw [unpackExponent_packComponents, unpackExponent_packComponents])
    (by rw [unpackMantissa_packComponents, unpackMantissa_packComponents])

/-- The sign of a double that is packed does not matter to its size. -/
theorem abs_unpack_pack (u : UnpackedFloat) :
    (unpack Format.binary64 (pack Format.binary64 u)).abs =
      (unpack Format.binary64 (pack Format.binary64 u.abs)).abs := by
  cases u with
  | notANumber => rfl
  | infinity sign | zero sign => exact abs_unpack_packComponents sign _ _ _
  | finite sign m e pos =>
    change _ = (unpack Format.binary64 (pack Format.binary64 (.finite .positive m e pos))).abs
    unfold pack
    dsimp only
    split_ifs <;> exact abs_unpack_packComponents sign _ _ _

theorem isNaN_unpack_pack (u : UnpackedFloat) :
    (unpack Format.binary64 (pack Format.binary64 u)).isNaN = u.isNaN := by
  cases u with
  | notANumber => rfl
  | infinity sign | zero sign => cases sign <;> rfl
  | finite sign m e pos =>
    by_cases fits : e < 972
    · have packed := fits_pack_finite sign pos fits
      generalize unpack Format.binary64 (pack Format.binary64 (.finite sign m e pos)) = v at packed
      cases v with
      | notANumber => exact packed.elim
      | _ => rfl
    · have full : 2 ^ Format.binary64.exponentBits ≤ (e + (Format.binary64.exponentBias : Nat) +
          (Format.binary64.mantissaBitsWithoutImplicit : Nat)).toNat + 1 := by
        change 2048 ≤ (e + (1023 : Nat) + (52 : Nat)).toNat + 1
        omega
      change (unpack Format.binary64 (pack Format.binary64 _)).isNaN = false
      unfold pack
      dsimp only
      rw [if_pos full]
      cases sign <;> rfl

/-! ### Differences of unpacked doubles -/

theorem abs_round (sign sign' : Sign) (m : Nat) (e : Int) :
    (UnpackedFloat.round Format.binary64 sign m e).abs =
      (UnpackedFloat.round Format.binary64 sign' m e).abs := by
  unfold UnpackedFloat.round roundWithAccuracy
  dsimp only
  rw [apply_dite UnpackedFloat.abs, apply_dite UnpackedFloat.abs]
  rfl

theorem isNaN_round (sign : Sign) (m : Nat) (e : Int) :
    (UnpackedFloat.round Format.binary64 sign m e).isNaN = false := by
  unfold UnpackedFloat.round roundWithAccuracy
  dsimp only
  rw [apply_dite UnpackedFloat.isNaN]
  exact ite_self false

theorem abs_normalize_neg (m e : Int) (zero : Sign) :
    (UnpackedFloat.normalize Format.binary64 (-m) e zero).abs =
      (UnpackedFloat.normalize Format.binary64 m e zero).abs := by
  unfold UnpackedFloat.normalize
  rcases Int.lt_trichotomy m 0 with below | rfl | above
  · rw [Int.compare_eq_lt.mpr below, Int.compare_eq_gt.mpr (by omega : 0 < -m)]
    exact abs_round _ _ _ _
  · rfl
  · rw [Int.compare_eq_gt.mpr above, Int.compare_eq_lt.mpr (by omega : -m < 0), Int.neg_neg]
    exact abs_round _ _ _ _

theorem isNaN_normalize (m e : Int) (zero : Sign) :
    (UnpackedFloat.normalize Format.binary64 m e zero).isNaN = false := by
  unfold UnpackedFloat.normalize
  cases compare m 0 with
  | eq => rfl
  | lt | gt => exact isNaN_round _ _ _

theorem abs_sub_comm (u v : UnpackedFloat) :
    (sub Format.binary64 u v).abs = (sub Format.binary64 v u).abs := by
  cases u with
  | notANumber => cases v <;> rfl
  | infinity s => cases v with
    | infinity s' => cases s <;> cases s' <;> rfl
    | _ => rfl
  | zero s => cases v with
    | zero s' => cases s <;> cases s' <;> rfl
    | _ => rfl
  | finite s m e pos => cases v with
    | finite s' m' e' pos' =>
      unfold sub decreaseExponent
      dsimp only
      rw [Int.min_comm, ← Int.neg_sub, abs_normalize_neg]
    | _ => rfl

theorem isNaN_sub {u v : UnpackedFloat} : (sub Format.binary64 u v).isNaN = true ↔
    u.isNaN = true ∨ v.isNaN = true ∨ u.isInf = true ∧ u = v := by
  have differ {u v : UnpackedFloat} (hu : u.isNaN = false) (hv : v.isNaN = false)
      (apart : u.isInf = true → u ≠ v) :
      ¬ (u.isNaN = true ∨ v.isNaN = true ∨ u.isInf = true ∧ u = v) := by
    simpa [hu, hv] using apart
  cases u with
  | notANumber => cases v <;> exact iff_of_true rfl (.inl rfl)
  | infinity s => cases v with
    | notANumber => exact iff_of_true rfl (.inr (.inl rfl))
    | infinity s' =>
      cases s <;> cases s'
      case negative.negative | positive.positive => exact iff_of_true rfl (.inr (.inr ⟨rfl, rfl⟩))
      case negative.positive | positive.negative =>
        exact iff_of_false (by decide) (differ rfl rfl fun _ => nofun)
    | zero s' | finite s' => exact iff_of_false nofun (differ rfl rfl fun _ => nofun)
  | zero s => cases v with
    | notANumber => exact iff_of_true rfl (.inr (.inl rfl))
    | zero s' =>
      have number : (sub Format.binary64 (.zero s) (.zero s')).isNaN = false := by
        cases s <;> cases s' <;> rfl
      exact iff_of_false (by rw [number]; nofun) (differ rfl rfl nofun)
    | infinity s' | finite s' => exact iff_of_false nofun (differ rfl rfl nofun)
  | finite s m e pos => cases v with
    | notANumber => exact iff_of_true rfl (.inr (.inl rfl))
    | finite s' m' e' pos' =>
      have number : (sub Format.binary64 (.finite s m e pos)
          (.finite s' m' e' pos')).isNaN = false := isNaN_normalize _ _ _
      exact iff_of_false (by rw [number]; nofun) (differ rfl rfl nofun)
    | infinity s' | zero s' => exact iff_of_false nofun (differ rfl rfl nofun)

/-- Doubles that compare equal are the same but for the sign of zeros. -/
theorem eq_of_compare {u v : UnpackedFloat} (h : u.compare v = some .eq) :
    u = v ∨ ∃ s s', u = .zero s ∧ v = .zero s' := by
  cases u with
  | notANumber => cases h
  | infinity s =>
    cases v with
    | infinity s' => cases s <;> cases s' <;> first | exact .inl rfl | cases h
    | _ => cases s <;> cases h
  | zero s =>
    cases v with
    | zero s' => exact .inr ⟨s, s', rfl, rfl⟩
    | infinity s' | finite s' => cases s' <;> cases h
    | notANumber => cases h
  | finite s m e pos =>
    cases v with
    | finite s' m' e' pos' =>
      have same : (compare e e').then (compare m m') = .eq ∧ s = s' := by
        cases s <;> cases s' <;> first
          | cases h
          | exact ⟨Option.some.inj h, rfl⟩
          | exact ⟨by simpa using Option.some.inj h, rfl⟩
      obtain ⟨rfl, rfl⟩ : e = e' ∧ m = m' := by simpa [Ordering.then_eq_eq] using same.1
      rw [same.2]
      exact .inl rfl
    | notANumber => cases h
    | infinity s' | zero s' => cases s <;> cases s' <;> cases h

/-- Doubles that compare equal differ by a zero, unless they are infinite. -/
theorem sub_of_compare {u v : UnpackedFloat} (h : u.compare v = some .eq)
    (finite : u.isInf = false) : ∃ sign, sub Format.binary64 u v = .zero sign := by
  rcases eq_of_compare h with rfl | ⟨s, s', rfl, rfl⟩
  · cases u with
    | notANumber => cases h
    | infinity s => cases finite
    | zero s => cases s <;> exact ⟨_, rfl⟩
    | finite s m e pos =>
      refine ⟨.positive, ?_⟩
      unfold sub
      dsimp only
      rw [Int.sub_self]
      rfl
  · cases s <;> cases s' <;> exact ⟨_, rfl⟩

/-! ### Differences of doubles -/

theorem isNaN_sub_doubles {x y : Float} : (x - y).isNaN = true ↔
    x.isNaN = true ∨ y.isNaN = true ∨ x.isInf = true ∧ (x == y) = true := by
  have same : x.isInf = true ∧ (x == y) = true ↔
      (unpack Format.binary64 (bits x)).isInf = true ∧
        unpack Format.binary64 (bits x) = unpack Format.binary64 (bits y) := by
    rw [Number.beq_iff_compare]
    refine and_congr_right fun infinite => ⟨fun equal => ?_, fun equal => ?_⟩
    · rcases eq_of_compare equal with same | ⟨s, s', zero, -⟩
      · exact same
      · change (unpack Format.binary64 (bits x)).isInf = true at infinite
        rw [zero] at infinite
        cases infinite
    · rw [← equal]
      refine compare_self ?_
      change (unpack Format.binary64 (bits x)).isInf = true at infinite
      generalize unpack Format.binary64 (bits x) = u at infinite
      cases u with
      | infinity s => rfl
      | _ => cases infinite
  rw [same]
  change (unpack Format.binary64 (pack Format.binary64 (sub Format.binary64
    (unpack Format.binary64 (bits x)) (unpack Format.binary64 (bits y))))).isNaN = true ↔ _
  rw [isNaN_unpack_pack, isNaN_sub]
  rfl

theorem isNaN_abs (x : Float) : x.abs.isNaN = x.isNaN := by
  change (unpack Format.binary64 (pack Format.binary64
    (unpack Format.binary64 (bits x)).abs)).isNaN = (unpack Format.binary64 (bits x)).isNaN
  rw [isNaN_unpack_pack]
  cases unpack Format.binary64 (bits x) <;> rfl

theorem abs_sub_doubles (x y : Float) : (x - y).abs = (y - x).abs := by
  have size (x y : Float) : (x - y).abs = .ofModel (.pack (unpack Format.binary64
      (pack Format.binary64 (sub Format.binary64 (unpack Format.binary64 (bits x))
        (unpack Format.binary64 (bits y))))).abs) := rfl
  rw [size, size, abs_unpack_pack, abs_sub_comm, ← abs_unpack_pack]

/-- Doubles that compare equal differ by zero, unless they are infinite. -/
theorem abs_sub_of_beq {x y : Float} (h : (x == y) = true) (finite : x.isInf = false) :
    (x - y).abs = 0 := by
  obtain ⟨sign, zero⟩ := sub_of_compare (Number.beq_iff_compare.mp h) finite
  change Float.ofModel (.pack (unpack Format.binary64 (pack Format.binary64 (sub Format.binary64
    (unpack Format.binary64 (bits x)) (unpack Format.binary64 (bits y))))).abs) = 0
  rw [zero]
  cases sign <;> rfl

end Binary64

namespace Number

variable {a b d : Number}

/-- Two numbers that are the same infinity. -/
def SameInfinity : Number → Number → Prop
  | double x, double y => x.isInf = true ∧ (x == y) = true
  | _, _ => False

/-- Two numbers whose difference is NaN. -/
def NoDifference (a b : Number) : Prop := a.IsNaN ∨ b.IsNaN ∨ a.SameInfinity b

instance : DecidableRel SameInfinity
  | double x, double y => inferInstanceAs (Decidable (x.isInf = true ∧ (x == y) = true))
  | int _, _ | double _, int _ => inferInstanceAs (Decidable False)

instance : DecidableRel NoDifference := fun _ _ => inferInstanceAs (Decidable (_ ∨ _ ∨ _))

theorem sub_int_double (i : Int) (y : Float) :
    (int i).sub (double y) = (int i).toDouble.map fun x => double (x - y) := by
  change (int i).toDouble >>= _ = _
  cases (int i).toDouble <;> rfl

theorem sub_double_int (i : Int) (y : Float) :
    (double y).sub (int i) = (int i).toDouble.map fun x => double (y - x) := by
  change (int i).toDouble >>= _ = _
  cases (int i).toDouble <;> rfl

/-- The size of a difference does not depend on the order, and neither does its fault. -/
theorem abs_sub_comm (a b : Number) : (a.sub b).map abs = (b.sub a).map abs := by
  have mixed (i : Int) (y : Float) :
      ((int i).sub (double y)).map abs = ((double y).sub (int i)).map abs := by
    rw [sub_int_double, sub_double_int]
    -- Each side is evaluated on its own: no unification of the two differences.
    cases (int i).toDouble with
    | error cause => simp only [Except.map]
    | ok x => simp only [Except.map, abs, Binary64.abs_sub_doubles x y]
  cases a with
  | int i =>
    cases b with
    | int j =>
      have size : ((i - j).natAbs : Int) = (j - i).natAbs := by omega
      exact congrArg (fun k => Except.ok (int k)) size
    | double y => exact mixed i y
  | double x =>
    cases b with
    | int j => exact (mixed j x).symm
    | double y =>
      change Except.ok (double (x - y).abs) = Except.ok (double (y - x).abs)
      rw [Binary64.abs_sub_doubles]

theorem isNaN_abs : d.abs.IsNaN ↔ d.IsNaN := by
  cases d with
  | int i => exact Iff.rfl
  | double x =>
    change x.abs.isNaN = true ↔ x.isNaN = true
    rw [Binary64.isNaN_abs]

/-- What holds of the size of a difference may be shown for the operands in the other order. -/
theorem abs_of_swap {P : Number → Prop} (h : a.sub b = .ok d)
    (swapped : ∀ d', b.sub a = .ok d' → P d'.abs) : P d.abs := by
  have same : (b.sub a).map abs = .ok d.abs := by
    rw [← abs_sub_comm a b, h]
    rfl
  obtain ⟨d', h', size⟩ := Except.map_eq_ok.mp same
  exact size ▸ swapped d' h'

/-- An integer that has a double has a finite one, the nearest. -/
theorem finite_of_toDouble {i : Int} {x : Float} (h : (int i).toDouble = .ok x) :
    x = Binary64.ofInt i ∧ x.isNaN = false ∧ x.isInf = false := by
  have finite := isFinite_toDouble (n := int i) trivial h
  unfold toDouble at h
  dsimp only at h
  split at h
  · cases h
  · rename_i notInf
    cases h
    exact ⟨rfl, Binary64.isNaN_of_isFinite finite, Bool.eq_false_of_not_eq_true notInf⟩

/-- The difference of an integer and a double is NaN only with NaN. -/
theorem isNaN_sub_int {i : Int} {y : Float} (h : (int i).sub (double y) = .ok d) :
    d.IsNaN ↔ y.isNaN = true := by
  rw [sub_int_double] at h
  obtain ⟨x, hx, rfl⟩ := Except.map_eq_ok.mp h
  have ⟨_, number, notInf⟩ := finite_of_toDouble hx
  change (x - y).isNaN = true ↔ _
  rw [Binary64.isNaN_sub_doubles, number, notInf]
  simp

theorem isNaN_sub_iff (h : a.sub b = .ok d) : d.IsNaN ↔ a.NoDifference b := by
  unfold NoDifference
  cases a with
  | int i =>
    cases b with
    | int j =>
      cases h
      simp [IsNaN, SameInfinity]
    | double y => simpa [IsNaN, SameInfinity] using isNaN_sub_int h
  | double x =>
    cases b with
    | int j =>
      have swapped : d.abs.IsNaN ↔ x.isNaN = true :=
        abs_of_swap (P := fun size => size.IsNaN ↔ x.isNaN = true) h fun d' h' =>
          isNaN_abs.trans (isNaN_sub_int h')
      simpa [IsNaN, SameInfinity] using isNaN_abs.symm.trans swapped
    | double y =>
      cases h
      exact Binary64.isNaN_sub_doubles

/-- A number of size zero. -/
def IsZero (n : Number) : Prop := n = int 0 ∨ n = double 0

theorem abs_of_equal_int {i : Int} {y : Float} (equal : (int i).equal (double y) = true)
    (h : (int i).sub (double y) = .ok d) : d.abs.IsZero := by
  rw [sub_int_double] at h
  obtain ⟨x, hx, rfl⟩ := Except.map_eq_ok.mp h
  obtain ⟨rfl, -, notInf⟩ := finite_of_toDouble hx
  have compares := Binary64.compare_ofInt (beq_iff_eq.mp equal)
  exact .inr (congrArg double (Binary64.abs_sub_of_beq (beq_iff_compare.mpr compares) notInf))

/-- Numbers that are exactly equal differ by zero, unless they are infinite. -/
theorem abs_of_equal (equal : a.equal b = true) (notInf : ¬ a.SameInfinity b)
    (h : a.sub b = .ok d) : d.abs.IsZero := by
  cases a with
  | int i =>
    cases b with
    | int j =>
      cases h
      have same : i = j := by simpa [Number.equal, order] using equal
      exact .inl (by simp [same, abs])
    | double y => exact abs_of_equal_int equal h
  | double x =>
    cases b with
    | int j =>
      refine abs_of_swap h fun d' h' => abs_of_equal_int ?_ h'
      rwa [equal_comm]
    | double y =>
      cases h
      have same : (x == y) = true := beq_iff_compare.mpr (order_doubles x y ▸ beq_iff_eq.mp equal)
      have finite : x.isInf = false := Bool.eq_false_of_not_eq_true fun infinite =>
        notInf ⟨infinite, same⟩
      exact .inr (congrArg double (Binary64.abs_sub_of_beq same finite))

end Number

end Quarterly
