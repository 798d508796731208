import Quarterly.Proofs.Number.Order

/-!
# Rounding what needs no rounding

A quotient that is a double already becomes this double (`unpack_nearest`): its last place is the
exponent of the double, and counted in last places it is the mantissa, with nothing left to round.
So an integer that is equal to a double turns into a double that is equal to it.
-/

namespace Quarterly

open Float.Model (Format UnpackedFloat)
open Float.Model.UnpackedFloat

namespace Binary64

/-- A mantissa with all of its digits and an exponent in the range of the doubles. -/
structure Normal (mantissa : Nat) (exponent : Int) : Prop where
  low : 2 ^ 52 ≤ mantissa
  high : mantissa < 2 ^ 53
  least : -1074 ≤ exponent
  most : exponent < 972

namespace Normal

variable {m : Nat} {e : Int}

theorem pos (h : Normal m e) : 0 < m :=
  Nat.lt_of_lt_of_le (Nat.two_pow_pos 52) h.low

theorem log2 (h : Normal m e) : m.log2 = 52 :=
  (Nat.log2_eq_iff (Nat.ne_of_gt h.pos)).mpr ⟨h.low, h.high⟩

/-- Bits with the fields of a normal double unpack to it. -/
theorem unpack_of_fields (h : Normal m e) {b : BitVec Format.binary64.numBits}
    (exponent : ((unpackExponent b).toNat : Int) = e + 1075)
    (mantissa : 2 ^ 52 + (unpackMantissa b).toNat = m) :
    unpack Format.binary64 b = .finite (Sign.ofBitVec (unpackSign b)) m e h.pos := by
  have ⟨_, _, least, most⟩ := h
  have notFull : unpackExponent b ≠ -1#_ := by
    intro full
    rw [full] at exponent
    change (2047 : Int) = e + 1075 at exponent
    omega
  have notLeast : unpackExponent b ≠ 0#_ := by
    intro zero
    rw [zero] at exponent
    change (0 : Int) = e + 1075 at exponent
    omega
  have unpacked := unpacks (b := b)
  generalize unpack Format.binary64 b = u at unpacked ⊢
  cases unpacked with
  | infinity full | notANumber full => exact absurd full notFull
  | zero zero | subnormal zero => exact absurd zero notLeast
  | @normal m' e' _ _ _ digits place =>
    obtain rfl : m' = m := by omega
    obtain rfl : e' = e := by omega
    rfl

/-- A normal double has room in the format. -/
theorem unpack_pack (h : Normal m e) (sign : Sign) :
    unpack Format.binary64 (pack Format.binary64 (.finite sign m e h.pos)) =
      .finite sign m e h.pos := by
  have ⟨low, high, least, most⟩ := h
  have field : (e + (Format.binary64.exponentBias : Nat) +
      (Format.binary64.mantissaBitsWithoutImplicit : Nat)).toNat = (e + 1075).toNat := by
    change (e + (1023 : Nat) + (52 : Nat)).toNat = _
    omega
  have room : ¬ 2 ^ Format.binary64.exponentBits ≤ (e + 1075).toNat + 1 := by
    change ¬ 2048 ≤ (e + 1075).toNat + 1
    omega
  have width : m.log2 + 1 = Format.binary64.mantissaBits := congrArg (· + 1) h.log2
  have packed : pack Format.binary64 (.finite sign m e h.pos) =
      packComponents Format.binary64 sign (BitVec.ofNat _ (e + 1075).toNat) (BitVec.ofNat _ m) := by
    unfold pack
    dsimp only
    rw [field, if_neg room, if_pos width]
  rw [packed, h.unpack_of_fields, unpackSign_packComponents]
  · cases sign <;> rfl
  · rw [unpackExponent_packComponents, BitVec.toNat_ofNat]
    change (((e + 1075).toNat % 2048 : Nat) : Int) = _
    omega
  · rw [unpackMantissa_packComponents, BitVec.toNat_ofNat]
    change 2 ^ 52 + m % 2 ^ 52 = m
    omega

end Normal

/-! ### Rounding quotients -/

theorem roundHalfEven_mul (m : Nat) {d : Nat} (pos : 0 < d) : roundHalfEven (m * d) d = m := by
  unfold roundHalfEven
  rw [Nat.mul_div_cancel m pos, Nat.mul_mod_left]
  simp [pos]

section

variable {n d m : Nat} {e : Int}

theorem Normal.ne_zero_of_value (h : Normal m e) (pos : d ≠ 0)
    (value : (n : Rat) = d * (m * 2 ^ e)) : n ≠ 0 := by
  have mPos : (m : Rat) ≠ 0 := by exact_mod_cast Nat.ne_of_gt h.pos
  have notZero : (n : Rat) ≠ 0 := by
    rw [value]
    positivity
  exact_mod_cast notZero

theorem lastPlace_of_normal (h : Normal m e) (pos : d ≠ 0)
    (value : (n : Rat) = d * (m * 2 ^ e)) : lastPlace n d = e := by
  have ⟨low, high, least, _⟩ := h
  have dPos : (0 : Rat) < d := by exact_mod_cast Nat.pos_of_ne_zero pos
  have above : (d : Rat) * 2 ^ (e + 52) ≤ n := by
    rw [value, zpow_add₀ (by norm_num), mul_comm ((2 : Rat) ^ e)]
    gcongr
    exact_mod_cast low
  have below : (n : Rat) < d * 2 ^ (e + 53) := by
    rw [value, zpow_add₀ (by norm_num), mul_comm ((2 : Rat) ^ e)]
    gcongr
    exact_mod_cast high
  obtain ⟨lt, le⟩ := lastPlace_bounds (h.ne_zero_of_value pos value) pos
  generalize lastPlace n d = place at lt le ⊢
  have reaches : e + 52 < place + 53 := by
    refine (zpow_lt_zpow_iff_right₀ (by norm_num : (1 : Rat) < 2)).mp ?_
    exact lt_of_mul_lt_mul_left (above.trans_lt lt) dPos.le
  rcases le with bottom | le
  · omega
  · have stays : place + 52 < e + 53 := by
      refine (zpow_lt_zpow_iff_right₀ (by norm_num : (1 : Rat) < 2)).mp ?_
      exact lt_of_mul_lt_mul_left (le.trans_lt below) dPos.le
    omega

theorem scaledRound_of_value (pos : d ≠ 0) (value : (n : Rat) = d * (m * 2 ^ e)) :
    scaledRound n d e = m := by
  obtain ⟨num, den, denPos, scaled, same⟩ := scaledRound_eq n pos e
  have unit : (d : Rat) * 2 ^ e ≠ 0 := by positivity
  have exact' : (num : Rat) = m * den := by
    apply mul_right_cancel₀ unit
    rw [same, value]
    ring
  have digits : num = m * den := by exact_mod_cast exact'
  rw [scaled, digits, roundHalfEven_mul m denPos]

/-- A bit pattern counts the last places of a double. -/
theorem Normal.unpack_ofBits (h : Normal m e) {sign : Sign} {top : Nat}
    (flag : top = 2 ^ 63 * sign.toBitVec.toNat) :
    unpack Format.binary64
        (bits (Float.ofBits (UInt64.ofNat (top + ((e + 1074).toNat * 2 ^ 52 + m))))) =
      .finite sign m e h.pos := by
  have ⟨low, high, least, most⟩ := h
  have bit : sign.toBitVec.toNat < 2 := sign.toBitVec.isLt
  obtain ⟨word, hw⟩ : ∃ word, word = top + ((e + 1074).toNat * 2 ^ 52 + m) := ⟨_, rfl⟩
  rw [← hw]
  set b : BitVec Format.binary64.numBits := (UInt64.ofNat word).toBitVec with hb
  have toNat : b.toNat = word % 2 ^ 64 := rfl
  -- The first digit of the mantissa carries into the exponent field.
  have exponent : ((unpackExponent b).toNat : Int) = e + 1075 := by
    rw [toNat_unpackExponent, toNat]
    omega
  have mantissa : 2 ^ 52 + (unpackMantissa b).toNat = m := by
    rw [toNat_unpackMantissa, toNat]
    omega
  have minus : unpackSign b = sign.toBitVec := by
    apply BitVec.eq_of_toNat_eq
    rw [toNat_unpackSign, toNat]
    omega
  change unpack Format.binary64 (pack Format.binary64 (unpack Format.binary64 b)) = _
  rw [h.unpack_of_fields exponent mantissa, h.unpack_pack, minus]
  cases sign <;> rfl

/-- A quotient that is a normal double becomes this double. -/
theorem unpack_nearest (h : Normal m e) (pos : d ≠ 0) (value : (n : Rat) = d * (m * 2 ^ e))
    (negative : Bool) : unpack Format.binary64 (bits (nearest negative n d)) =
      .finite (if negative then .negative else .positive) m e h.pos := by
  have ⟨low, high, least, most⟩ := h
  have hidden : hiddenBit = 2 ^ 52 := by decide
  have place : lastPlace n d = e := lastPlace_of_normal h pos value
  have digits : scaledRound n d e = m := scaledRound_of_value pos value
  unfold nearest
  dsimp only
  rw [if_neg (h.ne_zero_of_value pos value), place, digits, hidden, Nat.min_eq_left (by omega)]
  exact h.unpack_ofBits (by cases negative <;> decide)

end

/-! ### Integers that are doubles -/

/-- A finite double that is no zero has a mantissa with all of its digits, or the least exponent. -/
theorem normal_or_subnormal {b : BitVec Format.binary64.numBits} {sign : Sign} {m : Nat} {e : Int}
    {pos : 0 < m} (h : unpack Format.binary64 b = .finite sign m e pos) :
    Normal m e ∨ m < 2 ^ 52 ∧ e = -1074 := by
  have fraction : (unpackMantissa b).toNat < 2 ^ 52 := (unpackMantissa b).isLt
  have bound : (unpackExponent b).toNat < 2048 := (unpackExponent b).isLt
  cases h ▸ unpacks with
  | subnormal _ digits exponent => exact .inr ⟨digits ▸ fraction, exponent⟩
  | normal notLeast notFull digits exponent =>
    have field : (unpackExponent b).toNat ≠ 0 := fun zero => notLeast (BitVec.eq_of_toNat_eq zero)
    have field' : (unpackExponent b).toNat ≠ 2047 := fun full =>
      notFull (BitVec.eq_of_toNat_eq full)
    exact .inl ⟨by omega, by omega, by omega, by omega⟩

theorem compareRat_eq_iff {p q : Rat} : compareRat p q = .eq ↔ p = q := by
  unfold compareRat
  split
  · rename_i below
    simp [below.ne]
  · split
    · rename_i above
      simp [above.ne']
    · rename_i notBelow notAbove
      simp [le_antisymm (not_lt.mp notAbove) (not_lt.mp notBelow)]

/-- What an integer is equal to when it compares so with a finite double. -/
theorem value_of_compare {i : Int} {x : Float} {negative : Bool} {m : Nat} {e : Int}
    (content : ofFloat x = .finite negative m e) (h : compareIntDouble i x = some .eq) :
    (i : Rat) = ((if negative then -m else m : Int) : Rat) * 2 ^ e := by
  unfold compareIntDouble at h
  rw [content] at h
  simp only [toRat?_finite, Option.map_some, Option.some.injEq] at h
  exact compareRat_eq_iff.mp h

/-- A double of the least exponent without all digits is too small for an integer. -/
theorem not_integer_of_subnormal {n m : Nat} (pos : 0 < m) (low : m < 2 ^ 52) :
    (n : Rat) ≠ m * 2 ^ (-1074 : Int) := by
  intro value
  have unit : (0 : Rat) < 2 ^ (-1074 : Int) := by positivity
  have positive : (0 : Rat) < n := by
    rw [value]
    have : (0 : Rat) < m := by exact_mod_cast pos
    positivity
  have small : (n : Rat) < 1 := by
    calc (n : Rat) = m * 2 ^ (-1074 : Int) := value
      _ < 2 ^ 52 * 2 ^ (-1074 : Int) := by
        gcongr
        exact_mod_cast low
      _ < 1 := by
        rw [← zpow_natCast, ← zpow_add₀ (by norm_num)]
        exact zpow_lt_one_of_neg₀ (by norm_num) (by decide)
  have above : 0 < n := by exact_mod_cast positive
  have below : n < 1 := by exact_mod_cast small
  omega

/-- The size and the sign of an integer that is equal to a finite double. -/
theorem natAbs_of_value {i : Int} {sign : Sign} {m : Nat} {e : Int} (pos : 0 < m)
    (value : (i : Rat) = ((if sign == .negative then -m else m : Int) : Rat) * 2 ^ e) :
    (i.natAbs : Rat) = m * 2 ^ e ∧
      (if decide (i < 0) then Sign.negative else .positive) = sign := by
  have positive : (0 : Rat) < m * 2 ^ e := by
    have : (0 : Rat) < m := by exact_mod_cast pos
    positivity
  rw [Nat.cast_natAbs, Int.cast_abs]
  cases sign with
  | negative =>
    have opposite : (i : Rat) = -(m * 2 ^ e) := by
      rw [value]
      change ((-m : Int) : Rat) * 2 ^ e = _
      push_cast
      ring
    have below : i < 0 := by exact_mod_cast opposite ▸ neg_neg_of_pos positive
    rw [opposite, abs_neg, abs_of_pos positive, if_pos (decide_eq_true below)]
    exact ⟨rfl, rfl⟩
  | positive =>
    have own : (i : Rat) = m * 2 ^ e := by
      rw [value]
      rfl
    have above : ¬ i < 0 := by
      have : 0 < i := by exact_mod_cast own ▸ positive
      omega
    rw [own, abs_of_pos positive, if_neg (by simpa using above)]
    exact ⟨rfl, rfl⟩

/-- An integer that is equal to a double becomes it, or another zero. -/
theorem compare_ofInt {i : Int} {x : Float} (h : compareIntDouble i x = some .eq) :
    (unpack Format.binary64 (bits (ofInt i))).compare (unpack Format.binary64 (bits x)) =
      some .eq := by
  have content := ofFloat_eq x
  cases hx : unpack Format.binary64 (bits x) with
  | notANumber =>
    unfold compareIntDouble at h
    rw [content, hx] at h
    cases h
  | infinity sign =>
    unfold compareIntDouble at h
    rw [content, hx] at h
    cases sign <;> cases h
  | zero sign =>
    rw [hx] at content
    have value := value_of_compare content h
    obtain rfl : i = 0 := by simpa using value
    rfl
  | finite sign m e pos =>
    rw [hx] at content
    have value := value_of_compare content h
    have ⟨sized, minus⟩ := natAbs_of_value (e := e) pos value
    rcases normal_or_subnormal hx with normal | ⟨low, rfl⟩
    · have rounded : unpack Format.binary64 (bits (ofInt i)) = .finite sign m e pos := by
        have nearest := unpack_nearest normal Nat.one_ne_zero (n := i.natAbs)
          (by rwa [Nat.cast_one, one_mul]) (decide (i < 0))
        rwa [minus] at nearest
      rw [rounded]
      exact compare_self rfl
    · exact absurd sized (not_integer_of_subnormal pos low)

end Binary64

end Quarterly
