import Mathlib.Algebra.Order.Field.Rat
import Quarterly.Number.Elementary
import Quarterly.Proofs.Number.Range
import Quarterly.Proofs.Outcome

/-!
# Operations that keep doubles finite

A result that is rounded stays finite if its leading digit is not beyond that of the greatest double.
So a finite double stays finite when it loses its sign or gets the other one, when it is divided by
something larger than one, when its root is taken and when a half is added to it. Integers become
finite doubles, or fault.
-/

namespace Quarterly

open Float.Model (Format UnpackedFloat totalExponent)
open Float.Model.UnpackedFloat

namespace Binary64

/-! ### Rounding -/

theorem mantissa_shiftRight (em : ExtendedMantissa) (n : Nat) :
    (em >>> n).mantissa = em.mantissa / 2 ^ n := by
  change (n.repeat ExtendedMantissa.shiftRightOne em).mantissa = _
  induction n with
  | zero => simp [Nat.repeat]
  | succ n ih =>
    change (n.repeat ExtendedMantissa.shiftRightOne em).mantissa / 2 = _
    rw [ih, Nat.pow_succ, Nat.div_div_eq_div_mul]

theorem roundedMantissa_le (em : ExtendedMantissa) : em.roundedMantissa ≤ em.mantissa + 1 := by
  obtain ⟨m, round, sticky⟩ := em
  change Accuracy.roundToNearestEven m _ ≤ m + 1
  unfold Accuracy.roundToNearestEven
  split <;> omega

theorem mantissa_ofMantissaAndAccuracy (m : Nat) (accuracy : Accuracy) :
    (ExtendedMantissa.ofMantissaAndAccuracy m accuracy).mantissa = m := by
  unfold ExtendedMantissa.ofMantissaAndAccuracy
  split <;> rfl

theorem targetExponent_eq (total : Int) :
    Format.binary64.targetExponent total = max (total - 53) (-1074) := rfl

/-- How many digits are left when a mantissa is shifted to the right and rounded. -/
theorem log2_shifted_le {m r k : Nat} (h : r ≤ m / 2 ^ k + 1) : r.log2 ≤ m.log2 + 1 - k := by
  have next := Nat.lt_log2_self (n := m)
  by_cases zero : r = 0
  · subst zero
    simp
  · rw [← Nat.lt_succ_iff, Nat.log2_lt zero]
    by_cases hk : k ≤ m.log2
    · have quotient : m / 2 ^ k < 2 ^ (m.log2 + 1 - k) := by
        rw [Nat.div_lt_iff_lt_mul (Nat.two_pow_pos _), ← Nat.pow_add]
        rwa [show m.log2 + 1 - k + k = m.log2 + 1 by omega]
      calc r ≤ 2 ^ (m.log2 + 1 - k) := by omega
        _ < 2 ^ (m.log2 + 1 - k + 1) := Nat.pow_lt_pow_right (by decide) (by omega)
    · have quotient : m / 2 ^ k = 0 := Nat.div_eq_of_lt (Nat.lt_of_lt_of_le next
        (Nat.pow_le_pow_right (by decide) (by omega)))
      have le : r ≤ 1 := by omega
      calc r ≤ 1 := le
        _ < 2 ^ (m.log2 + 1 - k + 1) := Nat.one_lt_two_pow (by omega)

theorem fits_roundWithAccuracy (sign : Sign) {m : Nat} {e : Int} (accuracy : Accuracy)
    (low : e < 972) (total : totalExponent m e < 1024) :
    Fits (roundWithAccuracy Format.binary64 sign m e accuracy) := by
  unfold roundWithAccuracy shiftToTargetExponent shiftToExponent
  dsimp only
  set shift := (Format.binary64.targetExponent (totalExponent m e) - e).toNat with hshift
  set rounded := (ExtendedMantissa.ofMantissaAndAccuracy m accuracy >>> shift).roundedMantissa
    with hrounded
  have digits : rounded.log2 ≤ m.log2 + 1 - shift := by
    apply log2_shifted_le
    have le := roundedMantissa_le (ExtendedMantissa.ofMantissaAndAccuracy m accuracy >>> shift)
    rwa [mantissa_shiftRight, mantissa_ofMantissaAndAccuracy] at le
  by_cases empty : (ExtendedMantissa.ofMantissaAndAccuracy rounded .exact >>>
      (Format.binary64.targetExponent (totalExponent rounded (e + shift)) -
        (e + shift)).toNat).mantissa = 0
  · rw [dif_pos empty]
    trivial
  · rw [dif_neg empty]
    change _ + _ < (972 : Int)
    rw [targetExponent_eq] at hshift ⊢
    unfold totalExponent at total hshift ⊢
    omega

theorem Fits.isFinite {x : UnpackedFloat} (h : Fits x) : x.isFinite = true := by
  cases x with
  | zero sign => rfl
  | finite sign mantissa exponent pos => rfl
  | _ => exact h.elim

theorem log2_mantissa_le {b : BitVec Format.binary64.numBits} {sign : Sign} {m : Nat} {e : Int}
    {pos : 0 < m} (h : unpack Format.binary64 b = .finite sign m e pos) : m.log2 ≤ 52 := by
  have fraction : (unpackMantissa b).toNat < 2 ^ 52 := (unpackMantissa b).isLt
  rw [← Nat.lt_succ_iff, Nat.log2_lt (by omega)]
  cases h ▸ unpacks with
  | subnormal _ digits | normal _ _ digits =>
    change m < 2 ^ 53
    omega

/-- The digits of two factors whose product a shifted number holds. -/
theorem log2_add_log2_le {a b m shift : Nat} (ha : a ≠ 0) (hb : b ≠ 0)
    (below : a * b ≤ m <<< shift) : a.log2 + b.log2 ≤ m.log2 + shift := by
  have digits : 2 ^ (a.log2 + b.log2) < 2 ^ (m.log2 + 1 + shift) := by
    calc 2 ^ (a.log2 + b.log2) = 2 ^ a.log2 * 2 ^ b.log2 := Nat.pow_add _ _ _
      _ ≤ a * b := Nat.mul_le_mul (Nat.log2_self_le ha) (Nat.log2_self_le hb)
      _ ≤ m <<< shift := below
      _ = m * 2 ^ shift := Nat.shiftLeft_eq _ _
      _ < 2 ^ (m.log2 + 1) * 2 ^ shift :=
        Nat.mul_lt_mul_of_pos_right Nat.lt_log2_self (Nat.two_pow_pos _)
      _ = 2 ^ (m.log2 + 1 + shift) := (Nat.pow_add _ _ _).symm
  have lt := (Nat.pow_lt_pow_iff_right (by decide)).mp digits
  omega

/-- A quotient that is not much larger than the greatest double fits. -/
theorem fits_div {s s' : Sign} {m m' : Nat} {e e' : Int} (pos : 0 < m) (pos' : 0 < m')
    (total : totalExponent m e - totalExponent m' e' < 1023) :
    Fits (div Format.binary64 (.finite s m e pos) (.finite s' m' e' pos')) := by
  unfold div divCore
  dsimp only
  set target := min (e - e') (Format.binary64.targetExponent
    (totalExponent m e - totalExponent m' e')) with htarget
  set shift := (e - e' - target).toNat with hshift
  rw [targetExponent_eq] at htarget
  apply fits_roundWithAccuracy
  · omega
  · unfold totalExponent at total htarget ⊢
    by_cases zero : (m <<< shift) / m' = 0
    · rw [zero, show Nat.log2 0 = 0 by decide]
      omega
    · have digits := log2_add_log2_le zero (Nat.pos_iff_ne_zero.mp pos')
        (Nat.div_mul_le_self (m <<< shift) m')
      omega

/-- The root of a double fits. -/
theorem fits_sqrt {m : Nat} {e : Int} (pos : 0 < m) (low : e < 972) (digits : m.log2 ≤ 52) :
    Fits (sqrt Format.binary64 (.finite .positive m e pos)) := by
  unfold sqrt sqrtCore
  dsimp only
  set target := min (e.ediv 2) (Format.binary64.targetExponent
    ((totalExponent m e + 1).ediv 2)) with htarget
  set shift := (e - 2 * target).toNat with hshift
  rw [targetExponent_eq] at htarget
  have half : e.ediv 2 = e / 2 := rfl
  have half' : (totalExponent m e + 1).ediv 2 = (totalExponent m e + 1) / 2 := rfl
  rw [half, half'] at htarget
  apply fits_roundWithAccuracy
  · omega
  · unfold totalExponent at htarget ⊢
    by_cases zero : (m <<< shift).sqrt = 0
    · rw [zero, show Nat.log2 0 = 0 by decide]
      omega
    · have digits := log2_add_log2_le zero zero (Nat.sqrt_le (m <<< shift))
      omega

theorem fits_of_isFinite {x : Float} (h : x.isFinite = true) :
    Fits (unpack Format.binary64 (bits x)) := by
  apply fits_unpack
  intro full
  change (unpack Format.binary64 (bits x)).isFinite = true at h
  have unpacked := unpacks (b := bits x)
  generalize unpack Format.binary64 (bits x) = u at unpacked h
  cases unpacked with
  | infinity | notANumber => cases h
  | zero least | subnormal least => cases full.symm.trans least
  | normal _ notFull => exact notFull full

/-! ### Doubles -/

theorem isNaN_of_isFinite {x : Float} (h : x.isFinite = true) : x.isNaN = false := by
  have fits := fits_of_isFinite h
  change (unpack Format.binary64 (bits x)).isNaN = false
  generalize unpack Format.binary64 (bits x) = u at fits
  cases u with
  | zero | finite => rfl
  | _ => exact fits.elim

theorem isFinite_neg {x : Float} (h : x.isFinite = true) : (-x).isFinite = true := by
  have fits := fits_of_isFinite h
  change (unpack Format.binary64 (pack Format.binary64
    (unpack Format.binary64 (bits x)).neg)).isFinite = true
  generalize unpack Format.binary64 (bits x) = u at fits
  cases u with
  | zero sign => exact (Fits.pack (x := .zero (-sign)) trivial).isFinite
  | finite sign m e pos => exact (Fits.pack (x := .finite (-sign) m e pos) fits).isFinite
  | _ => exact fits.elim

theorem isFinite_abs {x : Float} (h : x.isFinite = true) : x.abs.isFinite = true := by
  have fits := fits_of_isFinite h
  change (unpack Format.binary64 (pack Format.binary64
    (unpack Format.binary64 (bits x)).abs)).isFinite = true
  generalize unpack Format.binary64 (bits x) = u at fits
  cases u with
  | zero sign => exact (Fits.pack (x := .zero .positive) trivial).isFinite
  | finite sign m e pos => exact (Fits.pack (x := .finite .positive m e pos) fits).isFinite
  | _ => exact fits.elim

/-- What divides a finite double by two or more is finite. -/
theorem fits_div_of_large {b : BitVec Format.binary64.numBits}
    (fits : Fits (unpack Format.binary64 b)) (s' : Sign) {m' : Nat} {e' : Int} (pos' : 0 < m')
    (large : 2 ≤ totalExponent m' e') :
    Fits (div Format.binary64 (unpack Format.binary64 b) (.finite s' m' e' pos')) := by
  cases hx : unpack Format.binary64 b with
  | zero sign => trivial
  | finite sign m e pos =>
    rw [hx] at fits
    have low : e < 972 := fits
    have digits := log2_mantissa_le hx
    apply fits_div
    unfold totalExponent at large ⊢
    omega
  | _ =>
    rw [hx] at fits
    exact fits.elim

/-- A hundredth of a finite double is finite. -/
theorem isFinite_div_hundred {x : Float} (h : x.isFinite = true) :
    (x / ofInt 100).isFinite = true := by
  have hundred : unpack Format.binary64 (bits (ofInt 100)) =
      .finite .positive (100 * 2 ^ 46) (-46) (by decide) := by rfl
  have large : 2 ≤ totalExponent (100 * 2 ^ 46) (-46) := by decide +kernel
  have fits := fits_div_of_large (fits_of_isFinite h) .positive (by decide) large
  rw [← hundred] at fits
  exact fits.pack.isFinite

/-- The root of a finite double without a minus sign is finite. -/
theorem isFinite_sqrt {x : Float} (h : x.isFinite = true)
    (noMinus : ∀ m e pos, unpack Format.binary64 (bits x) ≠ .finite .negative m e pos) :
    x.sqrt.isFinite = true := by
  have fits := fits_of_isFinite h
  change (unpack Format.binary64 (pack Format.binary64 (sqrt Format.binary64
    (unpack Format.binary64 (bits x))))).isFinite = true
  cases hx : unpack Format.binary64 (bits x) with
  | zero sign => exact (Fits.pack (x := .zero sign) trivial).isFinite
  | finite sign m e pos =>
    rw [hx] at fits
    cases sign with
    | negative => exact absurd hx (noMinus m e pos)
    | positive => exact (fits_sqrt pos fits (log2_mantissa_le hx)).pack.isFinite
  | _ =>
    rw [hx] at fits
    exact fits.elim

/-! ### Sums -/

/-- The last bit that is shifted out decides on which side of the half the rest lies. -/
theorem roundBit_shiftRight (em : ExtendedMantissa) (n : Nat) :
    (em >>> (n + 1)).roundBit = (em.mantissa / 2 ^ n % 2 != 0) := by
  rw [← mantissa_shiftRight]
  rfl

theorem roundedMantissa_of_roundBit {em : ExtendedMantissa} (below : em.roundBit = false) :
    em.roundedMantissa = em.mantissa := by
  obtain ⟨m, round, sticky⟩ := em
  obtain rfl : round = false := below
  cases sticky <;> rfl

section

variable {m k : Nat} (below : m < (2 ^ 54 - 1) * 2 ^ k)

include below

/-- What is nearer to the greatest double than to infinity has no more digits when it is rounded. -/
theorem roundedMantissa_lt :
    (ExtendedMantissa.ofMantissaAndAccuracy m .exact >>> (k + 1)).roundedMantissa < 2 ^ 53 := by
  have halves : m / 2 ^ k < 2 ^ 54 - 1 := (Nat.div_lt_iff_lt_mul (Nat.two_pow_pos k)).mpr below
  have kept : (ExtendedMantissa.ofMantissaAndAccuracy m .exact >>> (k + 1)).mantissa =
      m / 2 ^ k / 2 := by
    rw [mantissa_shiftRight, mantissa_ofMantissaAndAccuracy, Nat.pow_succ, Nat.div_div_eq_div_mul]
  by_cases last : m / 2 ^ k = 2 ^ 54 - 2
  · rw [roundedMantissa_of_roundBit, kept]
    · omega
    · rw [roundBit_shiftRight, mantissa_ofMantissaAndAccuracy, last]
      rfl
  · have le := roundedMantissa_le (ExtendedMantissa.ofMantissaAndAccuracy m .exact >>> (k + 1))
    rw [kept] at le
    omega

theorem fits_roundWithAccuracy_of_lt (sign : Sign) :
    Fits (roundWithAccuracy Format.binary64 sign m (970 - k) .exact) := by
  by_cases small : totalExponent m (970 - k) < 1024
  · exact fits_roundWithAccuracy sign .exact (by omega) small
  · have digits : m.log2 ≤ 53 + k := by
      by_cases zero : m = 0
      · subst zero
        simp
      · rw [← Nat.lt_succ_iff, Nat.log2_lt zero]
        calc m < (2 ^ 54 - 1) * 2 ^ k := below
          _ ≤ 2 ^ 54 * 2 ^ k := Nat.mul_le_mul_right _ (by decide)
          _ = 2 ^ (53 + k).succ := by
            rw [← Nat.pow_add]
            congr 1
            omega
    have top : totalExponent m (970 - k) = 1024 := by
      unfold totalExponent at small ⊢
      omega
    have shift : ((Format.binary64.targetExponent 1024) - (970 - k)).toNat = k + 1 := by
      rw [targetExponent_eq]
      omega
    unfold roundWithAccuracy shiftToTargetExponent shiftToExponent
    dsimp only
    rw [top, shift]
    have lt := roundedMantissa_lt below
    generalize (ExtendedMantissa.ofMantissaAndAccuracy m .exact >>> (k + 1)).roundedMantissa =
      rounded at lt
    have log : rounded.log2 ≤ 52 := by
      by_cases zero : rounded = 0
      · subst zero
        simp
      · rwa [← Nat.lt_succ_iff, Nat.log2_lt zero]
    by_cases empty : (ExtendedMantissa.ofMantissaAndAccuracy rounded .exact >>>
        (Format.binary64.targetExponent (totalExponent rounded (970 - k + (k + 1 : Nat))) -
          (970 - k + (k + 1 : Nat))).toNat).mantissa = 0
    · rw [dif_pos empty]
      trivial
    · rw [dif_neg empty]
      change _ < (972 : Int)
      rw [targetExponent_eq]
      unfold totalExponent
      omega

theorem fits_round (sign : Sign) : Fits (UnpackedFloat.round Format.binary64 sign m (970 - k)) := by
  unfold UnpackedFloat.round decreaseExponent
  dsimp only
  generalize (970 - (k : Int) - Format.binary64.targetExponent (totalExponent m (970 - k))).toNat =
    shift
  have scaled : m <<< shift < (2 ^ 54 - 1) * 2 ^ (k + shift) := by
    rw [Nat.shiftLeft_eq, Nat.pow_add, ← Nat.mul_assoc]
    exact Nat.mul_lt_mul_of_pos_right below (Nat.two_pow_pos shift)
  have fits := fits_roundWithAccuracy_of_lt scaled sign
  rwa [show (970 : Int) - (k + shift : Nat) = 970 - k - shift by omega] at fits

end

/-- A sum of integers in units of a power of two, if it is nearer to the greatest double than to
infinity. -/
theorem fits_normalize {m : Int} {k : Nat} (below : m.natAbs < (2 ^ 54 - 1) * 2 ^ k) (sign : Sign) :
    Fits (UnpackedFloat.normalize Format.binary64 m (970 - k) sign) := by
  unfold UnpackedFloat.normalize
  split
  · refine fits_round ?_ _
    omega
  · trivial
  · refine fits_round ?_ _
    omega

/-- Adding a half to a finite double leaves it finite. -/
theorem isFinite_add_half {x : Float} (h : x.isFinite = true) : (x + 0.5).isFinite = true := by
  have fits := fits_of_isFinite h
  have half : unpack Format.binary64 (bits 0.5) = .finite .positive (2 ^ 52) (-53) (by decide) := by
    rfl
  change (unpack Format.binary64 (pack Format.binary64 (add Format.binary64
    (unpack Format.binary64 (bits x)) (unpack Format.binary64 (bits 0.5))))).isFinite = true
  rw [half]
  refine (Fits.pack ?_).isFinite
  cases hx : unpack Format.binary64 (bits x) with
  | zero sign => exact show (-53 : Int) < 972 by decide
  | finite sign m e pos =>
    rw [hx] at fits
    have low : e < 972 := fits
    have digits : m < 2 ^ 53 := (Nat.log2_lt (by omega)).mp (by have := log2_mantissa_le hx; omega)
    unfold add decreaseExponent
    dsimp only
    obtain ⟨k, hk⟩ : ∃ k : Nat, min e (-53) = 970 - k := ⟨(970 - min e (-53)).toNat, by omega⟩
    rw [hk]
    apply fits_normalize
    have first : m <<< (e - (970 - k)).toNat ≤ (2 ^ 53 - 1) * 2 ^ (k + 1) := by
      rw [Nat.shiftLeft_eq]
      exact Nat.mul_le_mul (by omega) (Nat.pow_le_pow_right (by decide) (by omega))
    have second : (2 ^ 52 : Nat) <<< ((-53 : Int) - (970 - k)).toNat < 2 ^ k := by
      rw [Nat.shiftLeft_eq, ← Nat.pow_add]
      exact Nat.pow_lt_pow_right (by decide) (by omega)
    generalize m <<< (e - (970 - k)).toNat = a at first
    generalize (2 ^ 52 : Nat) <<< ((-53 : Int) - (970 - k)).toNat = b at second
    rw [Nat.pow_succ] at first
    cases sign <;> simp only [Sign.apply] <;> omega
  | _ =>
    rw [hx] at fits
    exact fits.elim

/-! ### What is made of bits -/

theorem isFinite_ofBits {n : Nat} (h : n % 2 ^ 63 < 2047 * 2 ^ 52) :
    (Float.ofBits (UInt64.ofNat n)).isFinite = true := by
  set b : BitVec Format.binary64.numBits := (UInt64.ofNat n).toBitVec with hb
  change (unpack Format.binary64 (pack Format.binary64 (unpack Format.binary64 b))).isFinite = true
  refine (fits_unpack fun full => ?_).pack.isFinite
  have exponent : (unpackExponent b).toNat = n % 2 ^ 63 / 2 ^ 52 := by
    have bits : b.toNat = n % 2 ^ 64 := rfl
    rw [toNat_unpackExponent, bits]
    omega
  have field : n % 2 ^ 63 / 2 ^ 52 = 2047 := by rw [← exponent, full]; rfl
  omega

/-- What is rounded is finite unless it is infinite. -/
theorem isFinite_nearest {negative : Bool} {n d : Nat} (h : (nearest negative n d).isInf = false) :
    (nearest negative n d).isFinite = true := by
  unfold nearest at h ⊢
  dsimp only at h ⊢
  split at h
  · rename_i zero
    rw [if_pos zero]
    cases negative <;> decide +kernel
  · rename_i notZero
    rw [if_neg notZero]
    have hidden : hiddenBit = 2 ^ 52 := by decide
    set magnitude := (lastPlace n d + 1074).toNat * hiddenBit + scaledRound n d (lastPlace n d)
    have capped := Nat.min_le_right magnitude (2047 * hiddenBit)
    have own := magnitude_mod negative capped
    rw [isInf_ofBits (by rw [own]; exact capped), own] at h
    apply isFinite_ofBits
    rw [own]
    simp only [decide_eq_false_iff_not] at h
    omega

/-! ### Signs -/

theorem unpackSign_eq {b : BitVec Format.binary64.numBits} :
    unpackSign b = BitVec.extractLsb 63 63 b := rfl

theorem unpackSign_packComponents (sign : Sign) {exponent mantissa} :
    unpackSign (packComponents Format.binary64 sign exponent mantissa) = sign.toBitVec := by
  apply BitVec.eq_of_getLsbD_eq
  intro i hi
  obtain rfl : i = 0 := by omega
  have top : (unpackSign (packComponents Format.binary64 sign exponent mantissa)).getLsbD 0 =
      (sign.toBitVec ++ exponent ++ mantissa).getLsbD 63 := by
    rw [unpackSign_eq, BitVec.getLsbD_extractLsb]
    rfl
  rw [top, BitVec.getLsbD_append, if_neg (by decide), BitVec.getLsbD_append, if_neg (by decide)]
  rfl

theorem toNat_unpackSign {b : BitVec Format.binary64.numBits} :
    (unpackSign b).toNat = b.toNat / 2 ^ 63 % 2 := by
  rw [unpackSign_eq, BitVec.extractLsb_toNat, Nat.shiftRight_eq_div_pow]

/-! ### Exact content -/

/-- The exact content of an unpacked double. -/
def ofUnpacked : UnpackedFloat → Binary64
  | .notANumber => .nan
  | .infinity sign => .infinite (sign == .negative)
  | .zero sign => .finite (sign == .negative) 0 (-1074)
  | .finite sign mantissa exponent _ => .finite (sign == .negative) mantissa exponent

theorem sign_eq (x : Float) :
    decide (x.toBits.toNat >>> 63 = 1) = (Sign.ofBitVec (unpackSign (bits x)) == .negative) := by
  have bound : (bits x).toNat < 2 ^ 64 := (bits x).isLt
  have top : (unpackSign (bits x)).toNat = x.toBits.toNat >>> 63 := by
    rw [toNat_unpackSign, toNat_toBits, Nat.shiftRight_eq_div_pow]
    omega
  rw [← top]
  generalize unpackSign (bits x) = sign
  revert sign
  decide

/-- Reading the fields of a double tells what unpacking it does. -/
theorem ofFloat_eq (x : Float) : ofFloat x = ofUnpacked (unpack Format.binary64 (bits x)) := by
  have hidden : hiddenBit = 2 ^ 52 := by decide
  have full : (unpackExponent (bits x)).toNat = 2047 ↔ unpackExponent (bits x) = -1#_ :=
    BitVec.toNat_inj (y := -1#_)
  have least : (unpackExponent (bits x)).toNat = 0 ↔ unpackExponent (bits x) = 0#_ :=
    BitVec.toNat_inj (y := 0#_)
  have empty : (unpackMantissa (bits x)).toNat = 0 ↔ unpackMantissa (bits x) = 0#_ :=
    BitVec.toNat_inj (y := 0#_)
  have notFull (isLeast : unpackExponent (bits x) = 0#_) : unpackExponent (bits x) ≠ -1#_ := by
    rw [isLeast]
    decide
  have unpacked := unpacks (b := bits x)
  unfold ofFloat
  simp only [exponentField_eq, fractionField_eq, sign_eq, full, least, empty]
  generalize unpack Format.binary64 (bits x) = u at unpacked
  cases unpacked with
  | infinity isFull isEmpty =>
    rw [if_pos isFull, if_pos isEmpty]
    rfl
  | notANumber isFull notEmpty =>
    rw [if_pos isFull, if_neg notEmpty]
    rfl
  | zero isLeast isEmpty =>
    rw [if_neg (notFull isLeast), if_pos isLeast, isEmpty]
    rfl
  | subnormal isLeast digits exponent =>
    subst digits exponent
    rw [if_neg (notFull isLeast), if_pos isLeast]
    rfl
  | normal notLeast notFull digits exponent =>
    subst digits exponent
    rw [if_neg notFull, if_neg notLeast, hidden]
    rfl

/-- A double below zero is negative by its exact content. -/
theorem ofFloat_of_negative {x : Float} {m : Nat} {e : Int} {pos : 0 < m}
    (h : unpack Format.binary64 (bits x) = .finite .negative m e pos) :
    ∃ mantissa exponent, 0 < mantissa ∧ ofFloat x = .finite true mantissa exponent := by
  rw [ofFloat_eq, h]
  exact ⟨m, e, pos, rfl⟩

/-! ### Doubles without a minus sign -/

/-- Without a minus sign. NaN has none. -/
def Plus : UnpackedFloat → Prop
  | .infinity sign | .zero sign | .finite sign .. => sign = .positive
  | .notANumber => True

theorem plus_unpack {b : BitVec Format.binary64.numBits} (h : unpackSign b = 0#1) :
    Plus (unpack Format.binary64 b) := by
  have positive : Sign.ofBitVec (unpackSign b) = .positive := by
    rw [h]
    rfl
  have unpacked := unpacks (b := b)
  generalize unpack Format.binary64 b = u at unpacked
  cases unpacked with
  | notANumber => trivial
  | infinity | zero | subnormal | normal => exact positive

theorem Plus.unpackSign_pack {u : UnpackedFloat} (h : Plus u) :
    unpackSign (pack Format.binary64 u) = 0#1 := by
  cases u with
  | notANumber => exact unpackSign_packComponents .positive
  | infinity sign | zero sign =>
    obtain rfl : sign = .positive := h
    exact unpackSign_packComponents .positive
  | finite sign m e pos =>
    obtain rfl : sign = .positive := h
    unfold pack
    dsimp only
    split
    · exact unpackSign_packComponents .positive
    · split <;> exact unpackSign_packComponents .positive

/-- What is made from bits without a sign bit has no minus sign. -/
theorem plus_ofBits {n : Nat} (h : n < 2 ^ 63) :
    Plus (unpack Format.binary64 (bits (Float.ofBits (UInt64.ofNat n)))) := by
  set b : BitVec Format.binary64.numBits := (UInt64.ofNat n).toBitVec with hb
  have noSign : unpackSign b = 0#1 := by
    have bits : b.toNat = n % 2 ^ 64 := rfl
    apply BitVec.eq_of_toNat_eq
    rw [toNat_unpackSign, bits]
    change n % 2 ^ 64 / 2 ^ 63 % 2 = 0
    omega
  exact plus_unpack (plus_unpack noSign).unpackSign_pack

/-- A natural number has no minus sign as a double. -/
theorem plus_ofInt {i : Int} (h : 0 ≤ i) : Plus (unpack Format.binary64 (bits (ofInt i))) := by
  have plus : decide (i < 0) = false := by simpa using h
  unfold ofInt nearest
  rw [plus]
  dsimp only
  split
  · exact plus_ofBits (by decide)
  · have hidden : hiddenBit = 2 ^ 52 := by decide
    apply plus_ofBits
    simp only [Bool.false_eq_true, if_false]
    omega

end Binary64

namespace Number

/-- Neither an infinite double nor NaN. -/
def IsFinite : Number → Prop
  | int _ => True
  | double x => x.isFinite = true

theorem isFinite_toDouble {n : Number} {x : Float} (finite : n.IsFinite) (h : n.toDouble = .ok x) :
    x.isFinite = true := by
  cases n with
  | double y =>
    cases h
    exact finite
  | int i =>
    change (if (Binary64.ofInt i).isInf then throw .integerTooLarge else pure (Binary64.ofInt i) :
      Except NumericFault Float) = .ok x at h
    split at h
    · cases h
    · rename_i notInf
      cases h
      exact Binary64.isFinite_nearest (Bool.eq_false_of_not_eq_true notInf)

theorem isFinite_neg {n : Number} (finite : n.IsFinite) : n.neg.IsFinite := by
  cases n with
  | int i => trivial
  | double x => exact Binary64.isFinite_neg finite

theorem isFinite_abs {n : Number} (finite : n.IsFinite) : n.abs.IsFinite := by
  cases n with
  | int i => trivial
  | double x => exact Binary64.isFinite_abs finite

theorem isFinite_divideInts {i j : Int} {x : Float} (h : divideInts i j = .ok x) :
    x.isFinite = true := by
  unfold divideInts at h
  dsimp only at h
  split at h
  · cases h
  · split at h
    · cases h
    · rename_i notInf
      cases h
      exact Binary64.isFinite_nearest (Bool.eq_false_of_not_eq_true notInf)

theorem isFinite_div_hundred {n : Number} {x : Float} (finite : n.IsFinite)
    (h : n.div (.int 100) = .ok x) : x.isFinite = true := by
  cases n with
  | int i => exact isFinite_divideInts h
  | double y =>
    rw [div_hundred] at h
    cases h
    exact Binary64.isFinite_div_hundred finite

theorem mkRat_neg {n : Int} (h : n < 0) {d : Nat} (notZero : d ≠ 0) : mkRat n d < 0 :=
  lt_of_le_of_ne (Rat.mkRat_nonpos h.le d) ((Rat.mkRat_ne_zero notZero).mpr h.ne)

/-- A double with a minus sign that is no zero is less than zero. -/
theorem less_zero_of_negative {x : Float} {m : Nat} {e : Int} {pos : 0 < m}
    (h : unpack Format.binary64 (Binary64.bits x) = .finite .negative m e pos) :
    (Number.double x).less (.int 0) = true := by
  obtain ⟨mantissa, exponent, large, content⟩ := Binary64.ofFloat_of_negative h
  have below : ∃ q : Rat, (Binary64.finite true mantissa exponent).toRat? = some q ∧ q < 0 := by
    have minus : -(mantissa : Int) < 0 := by omega
    unfold Binary64.toRat?
    dsimp only
    split
    · refine ⟨_, rfl, mkRat_neg (Int.mul_neg_of_neg_of_pos minus ?_) Nat.one_ne_zero⟩
      rw [Nat.one_shiftLeft]
      exact_mod_cast Nat.two_pow_pos _
    · refine ⟨_, rfl, mkRat_neg minus ?_⟩
      rw [Nat.one_shiftLeft]
      exact (Nat.two_pow_pos _).ne'
  obtain ⟨q, hq, negative⟩ := below
  have order : compareIntDouble 0 x = some .gt := by
    unfold compareIntDouble
    rw [content]
    change ((Binary64.finite true mantissa exponent).toRat?).map (compareRat (0 : Int)) = _
    rw [hq]
    have notAbove : ¬ (0 : Rat) < q := by
      intro above
      exact absurd (above.trans negative) (lt_irrefl _)
    simp [compareRat, notAbove, negative]
  change ((compareIntDouble 0 x).map Ordering.swap == some .lt) = true
  rw [order]
  rfl

theorem isFinite_sqrt {n : Number} {x : Float} (finite : n.IsFinite)
    (notLess : n.less (.int 0) = false) (h : n.sqrt = .ok x) : x.isFinite = true := by
  obtain ⟨y, hy, ⟨⟩⟩ := Except.bind_eq_ok.mp h
  apply Binary64.isFinite_sqrt (isFinite_toDouble finite hy)
  intro m e pos negative
  cases n with
  | double z =>
    cases hy
    rw [less_zero_of_negative negative] at notLess
    cases notLess
  | int i =>
    have natural : 0 ≤ i := by
      change (some (compare i 0) == some Ordering.lt) = false at notLess
      by_contra below
      rw [compare_lt_iff_lt.mpr (by omega : i < 0)] at notLess
      cases notLess
    change (if (Binary64.ofInt i).isInf then throw .integerTooLarge
      else pure (Binary64.ofInt i) : Except NumericFault Float) = .ok y at hy
    split at hy <;> cases hy
    have plus := Binary64.plus_ofInt natural
    rw [negative] at plus
    cases plus

end Number
end Quarterly
