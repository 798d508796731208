import Mathlib.Algebra.Order.Field.Power
import Mathlib.Algebra.Order.Field.Rat
import Mathlib.Data.Rat.Cast.Order
import Mathlib.Tactic.NormNum
import Mathlib.Tactic.Positivity
import Mathlib.Tactic.Ring
import Quarterly.Proofs.Number.Double

/-!
# The range of the doubles

An integer or a quotient of integers becomes the double nearest to it, unless that would be
infinite. The first number whose nearest double is infinite lies half way between the greatest
double and `2 ^ 1024`: the greatest double is odd in its last place, so the tie goes up.
-/

namespace Quarterly

open Float.Model (Format UnpackedFloat)
open Float.Model.UnpackedFloat

namespace Binary64

/-! ### Infinite bit patterns -/

section

variable {b : BitVec Format.binary64.numBits}

theorem toNat_unpackExponent : (unpackExponent b).toNat = b.toNat / 2 ^ 52 % 2048 := by
  simp [unpackExponent, BitVec.extractLsb_toNat, Nat.shiftRight_eq_div_pow]

theorem toNat_unpackMantissa : (unpackMantissa b).toNat = b.toNat % 2 ^ 52 := by
  simp [unpackMantissa, BitVec.extractLsb_toNat]

theorem unpack_of_infinite (full : unpackExponent b = -1#_) (empty : unpackMantissa b = 0#_) :
    unpack Format.binary64 b = .infinity (Sign.ofBitVec (unpackSign b)) := by
  unfold unpack
  rw [if_pos full, if_pos empty]

/-- What a bit pattern stands for, by its three fields. -/
inductive Unpacks (b : BitVec Format.binary64.numBits) : UnpackedFloat → Prop where
  | infinity (full : unpackExponent b = -1#_) (empty : unpackMantissa b = 0#_) :
      Unpacks b (.infinity (Sign.ofBitVec (unpackSign b)))
  | notANumber (full : unpackExponent b = -1#_) (notEmpty : unpackMantissa b ≠ 0#_) :
      Unpacks b .notANumber
  | zero (least : unpackExponent b = 0#_) (empty : unpackMantissa b = 0#_) :
      Unpacks b (.zero (Sign.ofBitVec (unpackSign b)))
  | subnormal {m e pos} (least : unpackExponent b = 0#_) (digits : m = (unpackMantissa b).toNat)
      (exponent : e = -1074) : Unpacks b (.finite (Sign.ofBitVec (unpackSign b)) m e pos)
  | normal {m e pos} (least : unpackExponent b ≠ 0#_) (full : unpackExponent b ≠ -1#_)
      (digits : m = 2 ^ 52 + (unpackMantissa b).toNat)
      (exponent : e = ((unpackExponent b).toNat : Int) - 1075) :
      Unpacks b (.finite (Sign.ofBitVec (unpackSign b)) m e pos)

theorem unpacks : Unpacks b (unpack Format.binary64 b) := by
  unfold unpack
  by_cases full : unpackExponent b = -1#_
  · rw [if_pos full]
    by_cases empty : unpackMantissa b = 0#_
    · rw [if_pos empty]
      exact .infinity full empty
    · rw [if_neg empty]
      exact .notANumber full empty
  rw [if_neg full]
  by_cases least : unpackExponent b = 0#_
  · rw [if_pos least]
    by_cases empty : unpackMantissa b = 0#_
    · rw [dif_pos empty]
      exact .zero least empty
    · rw [dif_neg empty]
      refine .subnormal least rfl ?_
      rw [least]
      rfl
  · rw [if_neg least]
    refine .normal least full ?_ rfl
    have fraction : (unpackMantissa b).toNat < 2 ^ 52 := (unpackMantissa b).isLt
    rw [BitVec.toNat_append, ← Nat.shiftLeft_add_eq_or_of_lt fraction]
    rfl

/-- Zero, or a finite double whose exponent the exponent field can hold. -/
def Fits : UnpackedFloat → Prop
  | .zero _ => True
  | .finite _ _ exponent _ => exponent < 972
  | _ => False

theorem fits_unpack (h : unpackExponent b ≠ -1#_) : Fits (unpack Format.binary64 b) := by
  have unpacked := unpacks (b := b)
  generalize unpack Format.binary64 b = u at unpacked
  cases unpacked with
  | infinity full | notANumber full => exact absurd full h
  | zero => trivial
  | subnormal _ _ exponent =>
    change _ < (972 : Int)
    omega
  | normal _ full _ exponent =>
    have field : (unpackExponent b).toNat ≠ 2047 := fun h => full (BitVec.eq_of_toNat_eq h)
    have bound : (unpackExponent b).toNat < 2048 := (unpackExponent b).isLt
    change _ < (972 : Int)
    omega

theorem Fits.isInf {x : UnpackedFloat} (h : Fits x) : x.isInf = false := by
  cases x with
  | infinity sign => exact h.elim
  | _ => rfl

/-- A finite double that is packed stays finite if the exponent field can hold its exponent. -/
theorem fits_pack_finite (sign : Sign) {mantissa : Nat} {exponent : Int} (pos : 0 < mantissa)
    (fits : exponent < 972) :
    Fits (unpack Format.binary64 (pack Format.binary64 (.finite sign mantissa exponent pos))) := by
  have room : ¬ 2 ^ Format.binary64.exponentBits ≤ (exponent +
      (Format.binary64.exponentBias : Nat) +
        (Format.binary64.mantissaBitsWithoutImplicit : Nat)).toNat + 1 := by
    change ¬ 2048 ≤ (exponent + (1023 : Nat) + (52 : Nat)).toNat + 1
    omega
  apply fits_unpack
  unfold pack
  dsimp only
  rw [if_neg room]
  split
  · rw [unpackExponent_packComponents]
    intro full
    have same := congrArg BitVec.toNat full
    rw [BitVec.toNat_ofNat] at same
    change (exponent + (1023 : Nat) + (52 : Nat)).toNat % 2048 = 2047 at same
    omega
  · rw [unpackExponent_packComponents]
    decide

theorem Fits.pack {x : UnpackedFloat} (h : Fits x) :
    Fits (unpack Format.binary64 (pack Format.binary64 x)) := by
  cases x with
  | zero sign => cases sign <;> trivial
  | finite sign mantissa exponent pos => exact fits_pack_finite sign pos h
  | _ => exact h.elim

end

/-- Bits make an infinite double if the exponent field is full and the fraction field empty. -/
theorem isInf_ofBits {n : Nat} (h : n % 2 ^ 63 ≤ 2047 * 2 ^ 52) :
    (Float.ofBits (UInt64.ofNat n)).isInf = decide (n % 2 ^ 63 = 2047 * 2 ^ 52) := by
  set b : BitVec Format.binary64.numBits := (UInt64.ofNat n).toBitVec with hb
  have bits : b.toNat = n % 2 ^ 64 := rfl
  have exponent : (unpackExponent b).toNat = n % 2 ^ 63 / 2 ^ 52 := by
    rw [toNat_unpackExponent, bits]
    omega
  have mantissa : (unpackMantissa b).toNat = n % 2 ^ 52 := by
    rw [toNat_unpackMantissa, bits]
    omega
  change (unpack Format.binary64 (pack Format.binary64 (unpack Format.binary64 b))).isInf = _
  by_cases infinite : n % 2 ^ 63 = 2047 * 2 ^ 52
  · have full : unpackExponent b = -1#_ := BitVec.eq_of_toNat_eq (by rw [exponent, infinite]; rfl)
    have empty : unpackMantissa b = 0#_ := by
      refine BitVec.eq_of_toNat_eq (mantissa.trans ?_)
      change n % 2 ^ 52 = 0
      omega
    rw [unpack_of_infinite full empty, decide_eq_true infinite]
    generalize Sign.ofBitVec (unpackSign b) = sign
    cases sign <;> rfl
  · rw [decide_eq_false infinite]
    refine (fits_unpack fun full => ?_).pack.isInf
    have field : n % 2 ^ 63 / 2 ^ 52 = 2047 := by rw [← exponent, full]; rfl
    omega

/-- A bit pattern whose exponent field is not empty is none of the zeros, however it is packed
again. -/
theorem unpackExponent_pack_unpack {b : BitVec Format.binary64.numBits}
    (h : unpackExponent b ≠ 0#_) :
    unpackExponent (pack Format.binary64 (unpack Format.binary64 b)) ≠ 0#_ := by
  unfold unpack
  by_cases full : unpackExponent b = -1#_
  · rw [if_pos full]
    generalize Sign.ofBitVec (unpackSign b) = sign
    split
    · cases sign <;> decide
    · decide
  · have field : (unpackExponent b).toNat ≠ 2047 := fun h => full (BitVec.eq_of_toNat_eq h)
    have bound : (unpackExponent b).toNat < 2048 := (unpackExponent b).isLt
    have digits : (1#1 ++ unpackMantissa b).toNat.log2 = 52 := by
      have mantissa : (unpackMantissa b).toNat < 2 ^ 52 := (unpackMantissa b).isLt
      have leading : (1#1 ++ unpackMantissa b).toNat = 2 ^ 52 + (unpackMantissa b).toNat := by
        rw [BitVec.toNat_append, ← Nat.shiftLeft_add_eq_or_of_lt mantissa]
        rfl
      rw [Nat.log2_eq_iff (by omega)]
      omega
    have biased : ((unpackExponent b).toNat - (Format.binary64.exponentBias + (52 : Nat) : Int) +
        Format.binary64.exponentBias + (52 : Nat)).toNat = (unpackExponent b).toNat := by omega
    have room : ¬ 2 ^ 11 ≤ (unpackExponent b).toNat + 1 := by omega
    have width : (1#1 ++ unpackMantissa b).toNat.log2 + 1 = Format.binary64.mantissaBits :=
      congrArg (· + 1) digits
    rw [if_neg full, if_neg h]
    unfold pack
    dsimp only
    rw [biased, if_neg room, if_pos width, unpackExponent_packComponents, BitVec.ofNat_toNat,
      BitVec.setWidth_eq]
    exact h

/-- Bits beyond those of the least normal double make no zero. -/
theorem beq_zero_ofBits {n : Nat} (h : 2 ^ 52 ≤ n % 2 ^ 63) :
    (Float.ofBits (UInt64.ofNat n) == 0) = false := by
  set b : BitVec Format.binary64.numBits := (UInt64.ofNat n).toBitVec with hb
  have exponent : (unpackExponent b).toNat = n % 2 ^ 63 / 2 ^ 52 := by
    have bits : b.toNat = n % 2 ^ 64 := rfl
    rw [toNat_unpackExponent, bits]
    omega
  have notEmpty : unpackExponent b ≠ 0#_ := by
    intro empty
    rw [empty] at exponent
    change 0 = n % 2 ^ 63 / 2 ^ 52 at exponent
    omega
  cases hz : Float.ofBits (UInt64.ofNat n) == 0 with
  | false => rfl
  | true =>
    obtain ⟨sign, zero⟩ := unpack_of_beq_zero hz
    exact absurd (empty_of_unpack_zero zero).1 (unpackExponent_pack_unpack notEmpty)

/-! ### Rounding quotients -/

theorem roundHalfEven_bounds {n d low high : Nat} (pos : 0 < d) (lower : low * d ≤ n)
    (upper : n < high * d) : low ≤ roundHalfEven n d ∧ roundHalfEven n d ≤ high := by
  have quotientLow : low ≤ n / d := (Nat.le_div_iff_mul_le pos).mpr lower
  have quotientHigh : n / d < high := (Nat.div_lt_iff_lt_mul pos).mpr upper
  unfold roundHalfEven
  dsimp only
  split_ifs <;> omega

/-- Halves go up to the even neighbour of an odd number. -/
theorem lt_roundHalfEven_iff {n half q : Nat} (pos : 0 < half) (odd : q % 2 = 1) :
    q < roundHalfEven n (2 * half) ↔ (2 * q + 1) * half ≤ n := by
  have division := Nat.div_add_mod n (2 * half)
  have remainder := Nat.mod_lt n (show 2 * half > 0 by omega)
  have split : (2 * q + 1) * half = 2 * half * q + half := by
    rw [Nat.add_mul, Nat.one_mul, Nat.mul_right_comm]
  rw [split]
  rcases Nat.lt_trichotomy (n / (2 * half)) q with below | same | above
  · have gap : 2 * half * (n / (2 * half)) + 2 * half ≤ 2 * half * q := by
      rw [← Nat.mul_succ]
      exact Nat.mul_le_mul_left _ below
    unfold roundHalfEven
    dsimp only
    split_ifs <;> omega
  · rw [same] at division
    unfold roundHalfEven
    dsimp only
    rw [same]
    split_ifs <;> omega
  · have gap : 2 * half * q + 2 * half ≤ 2 * half * (n / (2 * half)) := by
      rw [← Nat.mul_succ]
      exact Nat.mul_le_mul_left _ above
    unfold roundHalfEven
    dsimp only
    split_ifs <;> omega

section

variable {n d : Nat}

/-- A quotient in units of a power of two passes an odd number half way up to the next. -/
theorem lt_scaledRound_succ_iff (n place : Nat) {q : Nat} (pos : d ≠ 0) (odd : q % 2 = 1) :
    q < scaledRound n d (place + 1 : Nat) ↔ (2 * q + 1) * (d * 2 ^ place) ≤ n := by
  have units : scaledRound n d (place + 1 : Nat) = roundHalfEven n (2 * (d * 2 ^ place)) := by
    unfold scaledRound
    rw [if_pos (Int.natCast_nonneg _), Int.toNat_natCast, Nat.shiftLeft_succ, Nat.shiftLeft_eq]
  rw [units]
  exact lt_roundHalfEven_iff (by positivity) odd

theorem log2_bounds (pos : n ≠ 0) :
    (2 : Rat) ^ (n.log2 : Int) ≤ n ∧ (n : Rat) < 2 ^ ((n.log2 : Int) + 1) := by
  refine ⟨?_, ?_⟩
  · rw [zpow_natCast]
    exact_mod_cast Nat.log2_self_le pos
  · rw [← Nat.cast_succ, zpow_natCast]
    exact_mod_cast Nat.lt_log2_self

/-- Whether a quotient has reached a power of two. -/
theorem shifted_le_iff (guess : Int) : (if 0 ≤ guess then d <<< (guess.toNat + 53) ≤ n
    else d <<< 53 ≤ n <<< (-guess).toNat) ↔ (d : Rat) * 2 ^ (guess + 53) ≤ n := by
  split
  · have places : guess + 53 = (guess.toNat + 53 : Nat) := by omega
    rw [places, zpow_natCast, Nat.shiftLeft_eq]
    norm_cast
  · have places : guess + 53 = (53 : Nat) - ((-guess).toNat : Nat) := by omega
    have pos : (0 : Rat) < 2 ^ (-guess).toNat := by positivity
    rw [places, zpow_sub₀ (by norm_num), zpow_natCast, zpow_natCast, ← mul_div_assoc,
      div_le_iff₀ pos, Nat.shiftLeft_eq, Nat.shiftLeft_eq]
    norm_cast

/-- A quotient has fifty-three binary digits down to its last place, unless the least exponent is
reached first. -/
theorem lastPlace_bounds (pos : n ≠ 0) (pos' : d ≠ 0) :
    (n : Rat) < d * 2 ^ (lastPlace n d + 53) ∧
      (lastPlace n d = -1074 ∨ (d : Rat) * 2 ^ (lastPlace n d + 52) ≤ n) := by
  obtain ⟨low, high⟩ := log2_bounds pos
  obtain ⟨low', high'⟩ := log2_bounds pos'
  unfold lastPlace
  dsimp only
  generalize hg : (n.log2 : Int) - (d.log2 : Int) - 53 = guess
  have above : (n : Rat) < d * 2 ^ (guess + 1 + 53) := by
    calc (n : Rat) < 2 ^ ((n.log2 : Int) + 1) := high
      _ = 2 ^ (d.log2 : Int) * 2 ^ (guess + 1 + 53) := by
        rw [← zpow_add₀ (by norm_num)]
        congr 1
        omega
      _ ≤ d * 2 ^ (guess + 1 + 53) := by gcongr
  have below : (d : Rat) * 2 ^ (guess + 52) ≤ n := by
    calc (d : Rat) * 2 ^ (guess + 52) ≤ 2 ^ ((d.log2 : Int) + 1) * 2 ^ (guess + 52) := by gcongr
      _ = 2 ^ (n.log2 : Int) := by
        rw [← zpow_add₀ (by norm_num)]
        congr 1
        omega
      _ ≤ n := low
  have capped : ∀ e : Int, (n : Rat) < d * 2 ^ (e + 53) → (d : Rat) * 2 ^ (e + 52) ≤ n →
      (n : Rat) < d * 2 ^ (max (-1074) e + 53) ∧
        (max (-1074) e = -1074 ∨ (d : Rat) * 2 ^ (max (-1074) e + 52) ≤ n) := by
    intro e lt le
    rcases Int.le_total e (-1074) with least | more
    · rw [Int.max_eq_left least]
      refine ⟨lt.trans_le ?_, .inl rfl⟩
      gcongr
      norm_num
    · rw [Int.max_eq_right more]
      exact ⟨lt, .inr le⟩
  have wide := shifted_le_iff (n := n) (d := d) guess
  by_cases isWide : (d : Rat) * 2 ^ (guess + 53) ≤ n
  · rw [if_pos (wide.mpr isWide)]
    exact capped _ above (by rwa [show guess + 1 + 52 = guess + 53 by omega])
  · rw [if_neg (mt wide.mp isWide)]
    exact capped _ (lt_of_not_ge isWide) below

/-- A quotient in units of a power of two is a quotient of naturals. -/
theorem scaledRound_eq (n : Nat) (pos : d ≠ 0) (place : Int) :
    ∃ num den, 0 < den ∧ scaledRound n d place = roundHalfEven num den ∧
      (num : Rat) * (d * 2 ^ place) = n * den := by
  unfold scaledRound
  split
  · refine ⟨n, d <<< place.toNat, ?_, rfl, ?_⟩
    · rw [Nat.shiftLeft_eq]
      positivity
    · have places : place = (place.toNat : Nat) := by omega
      rw [Nat.shiftLeft_eq, places, zpow_natCast]
      push_cast
      rfl
  · refine ⟨n <<< (-place).toNat, d, Nat.pos_of_ne_zero pos, rfl, ?_⟩
    have places : place = -((-place).toNat : Nat) := by omega
    generalize (-place).toNat = k at places
    subst places
    have unit : (2 : Rat) ^ k * 2 ^ (-k : Int) = 1 := by
      rw [zpow_neg, zpow_natCast, mul_inv_cancel₀ (by positivity)]
    calc ((n <<< k : Nat) : Rat) * (d * 2 ^ (-k : Int)) = n * d * (2 ^ k * 2 ^ (-k : Int)) := by
          rw [Nat.shiftLeft_eq]
          push_cast
          ring
      _ = n * d := by rw [unit, mul_one]

/-- The digits of a quotient, down to its last place. -/
theorem scaledRound_bounds (pos : n ≠ 0) (pos' : d ≠ 0) :
    scaledRound n d (lastPlace n d) ≤ 2 ^ 53 ∧
      (lastPlace n d = -1074 ∨ 2 ^ 52 ≤ scaledRound n d (lastPlace n d)) := by
  obtain ⟨high, low⟩ := lastPlace_bounds pos pos'
  generalize lastPlace n d = place at high low ⊢
  obtain ⟨num, den, denPos, scaled, same⟩ := scaledRound_eq n pos' place
  have unit : (0 : Rat) < d * 2 ^ place := by positivity
  have denPos' : (0 : Rat) < den := by exact_mod_cast denPos
  rw [zpow_add₀ (by norm_num), ← mul_assoc, zpow_ofNat] at high
  rw [zpow_add₀ (by norm_num), ← mul_assoc, zpow_ofNat] at low
  have upper : num < 2 ^ 53 * den := by
    have lt : (num : Rat) * (d * 2 ^ place) < 2 ^ 53 * den * (d * 2 ^ place) := by
      rw [same]
      calc (n : Rat) * den < d * 2 ^ place * 2 ^ 53 * den := by gcongr
        _ = 2 ^ 53 * den * (d * 2 ^ place) := by ring
    exact_mod_cast lt_of_mul_lt_mul_right lt unit.le
  rw [scaled]
  have atLeast : 0 * den ≤ num := by simp
  refine ⟨(roundHalfEven_bounds denPos atLeast upper).2, low.imp id fun low => ?_⟩
  have lower : 2 ^ 52 * den ≤ num := by
    have le : 2 ^ 52 * (den : Rat) * (d * 2 ^ place) ≤ num * (d * 2 ^ place) := by
      rw [same]
      calc 2 ^ 52 * (den : Rat) * (d * 2 ^ place) = d * 2 ^ place * 2 ^ 52 * den := by ring
        _ ≤ (n : Rat) * den := by gcongr
    exact_mod_cast le_of_mul_le_mul_right le unit
  exact (roundHalfEven_bounds denPos lower upper).1

/-- The least magnitude of a number that is nearer to infinity than to a double: it is half a last
place from the greatest double, `(2 ^ 53 - 1) * 2 ^ 971`. -/
def overflowBound : Nat := (2 ^ 54 - 1) * 2 ^ 970

/-- The bit pattern of a rounded quotient, as a count of last places, reaches that of infinity. -/
theorem magnitude_reaches_infinity (pos : n ≠ 0) (pos' : d ≠ 0) :
    2047 * hiddenBit ≤ (lastPlace n d + 1074).toNat * hiddenBit +
        scaledRound n d (lastPlace n d) ↔ overflowBound * d ≤ n := by
  obtain ⟨high, low⟩ := lastPlace_bounds pos pos'
  obtain ⟨upper, lower⟩ := scaledRound_bounds pos pos'
  have hidden : hiddenBit = 2 ^ 52 := by decide
  rw [hidden]
  generalize lastPlace n d = place at high low upper lower ⊢
  rcases Int.lt_trichotomy place 971 with below | same | above
  · have small : n < overflowBound * d := by
      have lt : (n : Rat) < d * 2 ^ (1023 : Nat) := by
        calc (n : Rat) < d * 2 ^ (place + 53) := high
          _ ≤ d * 2 ^ ((1023 : Nat) : Int) := by
            gcongr
            · norm_num
            · omega
          _ = d * 2 ^ (1023 : Nat) := by rw [zpow_natCast]
      calc n < d * 2 ^ 1023 := by exact_mod_cast lt
        _ ≤ d * overflowBound := Nat.mul_le_mul_left _ (by decide +kernel)
        _ = overflowBound * d := Nat.mul_comm _ _
    refine iff_of_false (fun reaches => ?_) (Nat.not_le.mpr small)
    have : (place + 1074).toNat * 2 ^ 52 ≤ 2044 * 2 ^ 52 := Nat.mul_le_mul_right _ (by omega)
    omega
  · obtain rfl : place = (970 + 1 : Nat) := same
    have bound : (2 * (2 ^ 53 - 1) + 1) * (d * 2 ^ 970) = overflowBound * d := by
      have middle : 2 * (2 ^ 53 - 1) + 1 = 2 ^ 54 - 1 := by decide
      rw [middle, overflowBound, Nat.mul_comm d, Nat.mul_assoc]
    have full : ∀ rounded, 2047 * 2 ^ 52 ≤ (((970 + 1 : Nat) : Int) + 1074).toNat * 2 ^ 52 +
        rounded ↔ 2 ^ 53 - 1 < rounded := by
      intro rounded
      omega
    rw [full, lt_scaledRound_succ_iff n 970 pos' (by decide), bound]
  · have normal : place ≠ -1074 := by omega
    have large : overflowBound * d ≤ n := by
      have le : (d : Rat) * 2 ^ (1024 : Nat) ≤ n := by
        calc (d : Rat) * 2 ^ (1024 : Nat) = d * 2 ^ ((1024 : Nat) : Int) := by rw [zpow_natCast]
          _ ≤ d * 2 ^ (place + 52) := by
            gcongr
            · norm_num
            · omega
          _ ≤ n := low.resolve_left normal
      calc overflowBound * d ≤ 2 ^ 1024 * d := Nat.mul_le_mul_right _ (by decide +kernel)
        _ = d * 2 ^ 1024 := Nat.mul_comm _ _
        _ ≤ n := by exact_mod_cast le
    have digits := lower.resolve_left normal
    have : 2046 * 2 ^ 52 ≤ (place + 1074).toNat * 2 ^ 52 := Nat.mul_le_mul_right _ (by omega)
    exact iff_of_true (by omega) large

/-- The sign bit lies above the magnitude. -/
theorem magnitude_mod (negative : Bool) {m : Nat} (bound : m ≤ 2047 * hiddenBit) :
    ((if negative then 1 <<< 63 else 0) + m) % 2 ^ 63 = m := by
  have hidden : hiddenBit = 2 ^ 52 := by decide
  rw [hidden] at bound
  split <;> omega

/-- Which quotients round to an infinity. -/
theorem isInf_nearest (negative : Bool) (n : Nat) (pos : d ≠ 0) :
    (nearest negative n d).isInf = decide (overflowBound * d ≤ n) := by
  unfold nearest
  dsimp only
  split
  · rename_i zero
    subst zero
    have positive : ¬ overflowBound * d ≤ 0 :=
      Nat.not_le.mpr (Nat.mul_pos (by decide +kernel) (Nat.pos_of_ne_zero pos))
    rw [decide_eq_false positive]
    cases negative <;> decide +kernel
  · rename_i notZero
    have capped := Nat.min_le_right ((lastPlace n d + 1074).toNat * hiddenBit +
      scaledRound n d (lastPlace n d)) (2047 * hiddenBit)
    have magnitude := magnitude_mod negative capped
    rw [isInf_ofBits (by rw [magnitude]; exact capped), magnitude]
    refine decide_eq_decide.mpr (Iff.trans ?_ (magnitude_reaches_infinity notZero pos))
    change min _ (2047 * hiddenBit) = 2047 * hiddenBit ↔ _
    omega

/-- Which integers round to an infinity. -/
theorem isInf_ofInt (i : Int) : (ofInt i).isInf = decide (overflowBound ≤ i.natAbs) := by
  unfold ofInt
  rw [isInf_nearest _ _ Nat.one_ne_zero, Nat.mul_one]

/-- No integer has its last place as low as a double can have it. -/
theorem lastPlace_one_ne (pos : n ≠ 0) : lastPlace n 1 ≠ -1074 := by
  intro least
  have small := (lastPlace_bounds pos Nat.one_ne_zero).1
  have one : (1 : Rat) ≤ n := by exact_mod_cast Nat.pos_of_ne_zero pos
  rw [least] at small
  have tiny : ((1 : Nat) : Rat) * 2 ^ ((-1074 : Int) + 53) < 1 := by
    rw [Nat.cast_one, one_mul]
    exact zpow_lt_one_of_neg₀ (by norm_num) (by decide)
  exact absurd (one.trans_lt (small.trans tiny)) (lt_irrefl 1)

end

/-- No integer but zero rounds to a zero. -/
theorem beq_zero_ofInt {i : Int} (h : i ≠ 0) : (ofInt i == 0) = false := by
  have pos : i.natAbs ≠ 0 := by omega
  unfold ofInt nearest
  dsimp only
  rw [if_neg pos]
  generalize i.natAbs = n at pos
  have low : 2 ^ 52 ≤ scaledRound n 1 (lastPlace n 1) :=
    (scaledRound_bounds pos Nat.one_ne_zero).2.resolve_left (lastPlace_one_ne pos)
  have hidden : hiddenBit = 2 ^ 52 := by decide
  have capped := Nat.min_le_right ((lastPlace n 1 + 1074).toNat * hiddenBit +
    scaledRound n 1 (lastPlace n 1)) (2047 * hiddenBit)
  apply beq_zero_ofBits
  rw [magnitude_mod _ capped]
  omega

end Binary64

/-- A number would have to be a double beyond the range of the doubles. -/
inductive NumericFault.IsOverflow : NumericFault → Prop where
  | integer : IsOverflow .integerTooLarge
  | quotient : IsOverflow .quotientTooLarge

namespace Number

/-- Only an integer beyond the range of the doubles has no double. -/
theorem toDouble_eq_error_iff {n : Number} {cause : NumericFault} : n.toDouble = .error cause ↔
    cause = .integerTooLarge ∧ ∃ i : Int, n = .int i ∧ Binary64.overflowBound ≤ i.natAbs := by
  cases n with
  | double x => simp [toDouble, pure, Except.pure]
  | int i =>
    have range : (Number.int i).toDouble = if (Binary64.ofInt i).isInf = true
        then .error .integerTooLarge else .ok (Binary64.ofInt i) := rfl
    rw [range, Binary64.isInf_ofInt]
    by_cases large : Binary64.overflowBound ≤ i.natAbs
    · simp [large, eq_comm]
    · simp [large]

/-- The double of an integer other than zero is no zero. -/
theorem toDouble_ne_zero {n : Number} {x : Float} (nonzero : n.equal (.int 0) = false)
    (h : n.toDouble = .ok x) : (x == 0) = false := by
  cases n with
  | double y =>
    cases h
    cases hx : x == 0 with
    | false => rfl
    | true =>
      rw [equal_zero_of_beq hx] at nonzero
      cases nonzero
  | int i =>
    have notZero : i ≠ 0 := by
      rintro rfl
      exact absurd nonzero (by decide)
    change (if (Binary64.ofInt i).isInf then throw .integerTooLarge else pure (Binary64.ofInt i) :
      Except NumericFault Float) = .ok x at h
    split at h
    · cases h
    · cases h
      exact Binary64.beq_zero_ofInt notZero

end Number

end Quarterly
