import Quarterly.Proofs.Number.Oversized
import Quarterly.Proofs.Number.Representable

/-!
# Integers next to their doubles

The double of an integer is an integer again, and the same one exactly if fifty-three binary digits
hold it but for zeros behind them (`exists_exactValue_nearest`). A finite double that is divided by
one stays what it is (`ofFloat_div_one`).
-/

namespace Quarterly

open Float.Model (Format UnpackedFloat totalExponent)
open Float.Model.UnpackedFloat

namespace Binary64

/-! ### Integers -/

/-- A natural number of fifty-three binary digits at most, with zeros behind them. -/
def Holds (n : Nat) : Prop := ∃ m e : Nat, m < 2 ^ 53 ∧ n = m * 2 ^ e

section

variable {n : Nat}

theorem least_le_lastPlace (n d : Nat) : -1074 ≤ lastPlace n d := by
  unfold lastPlace
  exact Int.le_max_left _ _

/-- Above its last place an integer loses nothing. -/
theorem scaledRound_of_nonpos (place : lastPlace n 1 ≤ 0) :
    (scaledRound n 1 (lastPlace n 1) : Rat) * 2 ^ lastPlace n 1 = n := by
  obtain ⟨k, hk⟩ : ∃ k : Nat, lastPlace n 1 = -k := ⟨(-lastPlace n 1).toNat, by omega⟩
  have unit : (2 : Rat) ^ k * 2 ^ (-k : Int) = 1 := by
    rw [zpow_neg, zpow_natCast, mul_inv_cancel₀ (by positivity)]
  have value : (n : Rat) = (1 : Nat) * ((n * 2 ^ k : Nat) * 2 ^ (-k : Int)) := by
    push_cast
    rw [one_mul, mul_assoc, unit, mul_one]
  rw [hk, scaledRound_of_value Nat.one_ne_zero value, ← one_mul (Nat.cast _ * _), ← Nat.cast_one,
    ← value]

/-- The rounded integer, and when it is the integer itself. -/
theorem exists_nat_rounded (pos : n ≠ 0) : ∃ k : Nat,
    (k : Rat) = scaledRound n 1 (lastPlace n 1) * 2 ^ lastPlace n 1 ∧ (k = n ↔ Holds n) := by
  obtain ⟨high, low⟩ := lastPlace_bounds pos Nat.one_ne_zero
  have digits := (scaledRound_bounds pos Nat.one_ne_zero).1
  replace low := low.resolve_left (lastPlace_one_ne pos)
  rw [Nat.cast_one, one_mul] at high low
  rcases Int.le_total (lastPlace n 1) 0 with nonpos | nonneg
  · refine ⟨n, (scaledRound_of_nonpos nonpos).symm, iff_of_true rfl ⟨n, 0, ?_, by simp⟩⟩
    have small : (n : Rat) < 2 ^ (53 : Nat) := by
      calc (n : Rat) < 2 ^ (lastPlace n 1 + 53) := high
        _ ≤ 2 ^ ((53 : Nat) : Int) := by
          gcongr
          · norm_num
          · omega
        _ = 2 ^ (53 : Nat) := zpow_natCast _ _
    exact_mod_cast small
  · obtain ⟨p, hp⟩ : ∃ p : Nat, lastPlace n 1 = p := ⟨(lastPlace n 1).toNat, by omega⟩
    rw [hp] at high low digits ⊢
    have below : n < 2 ^ (p + 53) := by exact_mod_cast high
    have above : 2 ^ (p + 52) ≤ n := by exact_mod_cast low
    refine ⟨scaledRound n 1 p * 2 ^ p, by push_cast [zpow_natCast]; rfl, ?_, ?_⟩
    · intro same
      refine ⟨scaledRound n 1 p, p, lt_of_le_of_ne digits fun full => ?_, same.symm⟩
      rw [full, ← Nat.pow_add, Nat.add_comm] at same
      omega
    · rintro ⟨m, e, small, rfl⟩
      have reaches : p ≤ e := by
        have lt : 2 ^ (p + 52) < 2 ^ (53 + e) := by
          calc 2 ^ (p + 52) ≤ m * 2 ^ e := above
            _ < 2 ^ 53 * 2 ^ e := Nat.mul_lt_mul_of_pos_right small (Nat.two_pow_pos e)
            _ = 2 ^ (53 + e) := (Nat.pow_add _ _ _).symm
        have := (Nat.pow_lt_pow_iff_right (by decide)).mp lt
        omega
      have whole : m * 2 ^ e = m * 2 ^ (e - p) * 2 ^ p := by
        rw [Nat.mul_assoc, ← Nat.pow_add, Nat.sub_add_cancel reaches]
      have value : ((m * 2 ^ e : Nat) : Rat) =
          (1 : Nat) * ((m * 2 ^ (e - p) : Nat) * 2 ^ (p : Int)) := by
        rw [whole]
        push_cast [zpow_natCast]
        rw [one_mul]
      rw [scaledRound_of_value Nat.one_ne_zero value, ← whole]

/-- What an integer is rounded to is a normal double, of which the bit pattern counts the last
places. -/
theorem exists_normal_rounded (pos : n ≠ 0) (small : n < overflowBound) : ∃ m e, ∃ _ : Normal m e,
    (m : Rat) * 2 ^ e = scaledRound n 1 (lastPlace n 1) * 2 ^ lastPlace n 1 ∧
      (e + 1074).toNat * 2 ^ 52 + m =
        (lastPlace n 1 + 1074).toNat * 2 ^ 52 + scaledRound n 1 (lastPlace n 1) := by
  have hidden : hiddenBit = 2 ^ 52 := by decide
  have inside := (magnitude_reaches_infinity pos Nat.one_ne_zero).not.mpr (by omega)
  obtain ⟨high, low⟩ := scaledRound_bounds pos Nat.one_ne_zero
  have least := least_le_lastPlace n 1
  replace low := low.resolve_left (lastPlace_one_ne pos)
  rw [hidden] at inside
  generalize lastPlace n 1 = place at *
  generalize scaledRound n 1 place = digits at *
  rcases Nat.lt_or_eq_of_le high with fits | rfl
  · exact ⟨digits, place, ⟨low, fits, least, by omega⟩, rfl, rfl⟩
  · refine ⟨2 ^ 52, place + 1, ⟨by decide, by decide, by omega, by omega⟩, ?_, by omega⟩
    rw [zpow_add₀ (by norm_num)]
    push_cast
    ring

/-- The double of an integer is an integer. -/
theorem exists_exactValue_nearest (pos : n ≠ 0) (small : n < overflowBound) : ∃ k : Nat,
    (k = n ↔ Holds n) ∧ ∀ negative : Bool,
      exactValue? (nearest negative n 1) = some ((if negative then -k else k : Int) : Rat) := by
  obtain ⟨k, value, own⟩ := exists_nat_rounded pos
  obtain ⟨m, e, normal, same, places⟩ := exists_normal_rounded pos small
  refine ⟨k, own, fun negative => ?_⟩
  have hidden : hiddenBit = 2 ^ 52 := by decide
  have unpacked : unpack Format.binary64 (bits (nearest negative n 1)) =
      .finite (if negative then .negative else .positive) m e normal.pos := by
    have ⟨low, high, least, most⟩ := normal
    unfold nearest
    dsimp only
    rw [if_neg pos, hidden, ← places, Nat.min_eq_left (by omega)]
    exact normal.unpack_ofBits (by cases negative <;> decide)
  unfold exactValue?
  rw [ofFloat_eq, unpacked]
  change (finite _ m e).toRat? = _
  rw [toRat?_finite]
  cases negative with
  | false =>
    change some (((m : Int) : Rat) * 2 ^ e) = some ((k : Int) : Rat)
    rw [Int.cast_natCast, Int.cast_natCast, same, value]
  | true =>
    change some (((-m : Int) : Rat) * 2 ^ e) = some ((-k : Int) : Rat)
    rw [Int.cast_neg, Int.cast_neg, Int.cast_natCast, Int.cast_natCast, neg_mul, same, value]

end

/-! ### Division by one -/

/-- The form that every finite double but zero has: all digits, or the least exponent. -/
def Canonical (m : Nat) (e : Int) : Prop := Normal m e ∨ m < 2 ^ 52 ∧ e = -1074

section

variable {m : Nat} {e : Int}

theorem Canonical.target (h : Canonical m e) :
    Format.binary64.targetExponent (totalExponent m e) = e := by
  rw [targetExponent_eq]
  unfold totalExponent
  rcases h with normal | ⟨low, rfl⟩
  · have ⟨_, _, least, _⟩ := normal
    rw [normal.log2]
    omega
  · have digits : m.log2 ≤ 52 := by
      by_cases zero : m = 0
      · subst zero
        simp
      · have := (Nat.log2_lt zero).mpr low
        omega
    omega

theorem log2_shiftLeft (pos : 0 < m) (k : Nat) : (m <<< k).log2 = m.log2 + k := by
  have low := Nat.log2_self_le (Nat.ne_of_gt pos)
  have high := Nat.lt_log2_self (n := m)
  rw [Nat.shiftLeft_eq, Nat.log2_eq_iff (Nat.ne_of_gt (Nat.mul_pos pos (Nat.two_pow_pos k))),
    show m.log2 + k + 1 = m.log2 + 1 + k by omega, Nat.pow_add, Nat.pow_add]
  exact ⟨Nat.mul_le_mul_right _ low, Nat.mul_lt_mul_of_pos_right high (Nat.two_pow_pos k)⟩

/-- Zeros are shifted out without a trace. -/
theorem shiftRight_shiftLeft (m k : Nat) :
    ExtendedMantissa.ofMantissaAndAccuracy (m <<< k) .exact >>> k = ⟨m, false, false⟩ := by
  change k.repeat ExtendedMantissa.shiftRightOne ⟨m <<< k, false, false⟩ = _
  induction k generalizing m with
  | zero => rfl
  | succ k ih =>
    have bit : (2 * m) % 2 = 0 := by omega
    have half : 2 * m / 2 = m := by omega
    change ExtendedMantissa.shiftRightOne
      (k.repeat ExtendedMantissa.shiftRightOne ⟨m <<< (k + 1), false, false⟩) = _
    rw [Nat.shiftLeft_succ_inside, ih]
    simp [ExtendedMantissa.shiftRightOne, bit, half]

/-- Rounding takes back the zeros behind a mantissa that has its place. -/
theorem roundWithAccuracy_shiftLeft (h : Canonical m e) (pos : 0 < m) (sign : Sign) (k : Nat) :
    roundWithAccuracy Format.binary64 sign (m <<< k) (e - k) .exact = .finite sign m e pos := by
  have total : totalExponent (m <<< k) (e - k) = totalExponent m e := by
    unfold totalExponent
    rw [log2_shiftLeft pos]
    omega
  have first : shiftToTargetExponent Format.binary64 (m <<< k) (e - k) .exact =
      (⟨m, false, false⟩, e) := by
    unfold shiftToTargetExponent shiftToExponent
    dsimp only
    rw [total, h.target, show (e - (e - k)).toNat = k by omega, shiftRight_shiftLeft,
      Int.sub_add_cancel]
  have second : shiftToTargetExponent Format.binary64 m e .exact = (⟨m, false, false⟩, e) := by
    unfold shiftToTargetExponent shiftToExponent
    dsimp only
    rw [h.target, Int.sub_self]
    change (_, e + 0) = _
    rw [Int.add_zero]
    rfl
  unfold roundWithAccuracy
  rw [first]
  change (let p := shiftToTargetExponent Format.binary64 m e .exact
    if h : p.1.mantissa = 0 then UnpackedFloat.zero sign
    else .finite sign p.1.mantissa p.2 (Nat.pos_of_ne_zero h)) = _
  rw [second]
  exact dif_neg (Nat.ne_of_gt pos)

theorem div_one (h : Canonical m e) (pos : 0 < m) (sign : Sign) :
    div Format.binary64 (.finite sign m e pos) (.finite .positive (2 ^ 52) (-52) (by decide)) =
      .finite sign m e pos := by
  have one : totalExponent (2 ^ 52) (-52) = 1 := by decide +kernel
  have target := h.target
  rw [targetExponent_eq] at target
  obtain ⟨k, hk⟩ : ∃ k : Nat,
      min (e - -52) (Format.binary64.targetExponent (totalExponent m e - 1)) = e - k := by
    refine ⟨(e - min (e - -52) (Format.binary64.targetExponent (totalExponent m e - 1))).toNat, ?_⟩
    rw [targetExponent_eq]
    omega
  have digits : m <<< (52 + k) = m <<< k * 2 ^ 52 := by
    rw [Nat.add_comm, Nat.shiftLeft_add, Nat.shiftLeft_eq (m <<< k)]
  have core : divCore Format.binary64 m e (2 ^ 52) (-52) = (m <<< k, e - k, .exact) := by
    unfold divCore
    dsimp only
    rw [one, hk, show (e - -52 - (e - k)).toNat = 52 + k by omega, digits,
      Nat.mul_div_cancel _ (Nat.two_pow_pos 52), Nat.mul_mod_left]
    rfl
  have plus : sign / .positive = sign := by cases sign <;> rfl
  unfold div
  dsimp only
  rw [core, plus]
  exact roundWithAccuracy_shiftLeft h pos sign k

/-- Bits with an empty exponent field unpack to a double of the least exponent. -/
theorem unpack_of_least (pos : 0 < m) {b : BitVec Format.binary64.numBits}
    (least : unpackExponent b = 0#_) (mantissa : (unpackMantissa b).toNat = m) :
    unpack Format.binary64 b = .finite (Sign.ofBitVec (unpackSign b)) m (-1074) pos := by
  have notFull : unpackExponent b ≠ -1#_ := by
    rw [least]
    decide
  have unpacked := unpacks (b := b)
  generalize unpack Format.binary64 b = u at unpacked ⊢
  cases unpacked with
  | infinity full | notANumber full => exact absurd full notFull
  | zero _ empty =>
    rw [empty] at mantissa
    exact absurd mantissa (Nat.ne_of_lt pos)
  | @subnormal m' e' _ _ digits exponent =>
    obtain rfl : m' = m := digits.trans mantissa
    subst exponent
    rfl
  | normal notLeast => exact absurd least notLeast

/-- A double of the least exponent has room in the format. -/
theorem unpack_pack_least (pos : 0 < m) (low : m < 2 ^ 52) (sign : Sign) :
    unpack Format.binary64 (pack Format.binary64 (.finite sign m (-1074) pos)) =
      .finite sign m (-1074) pos := by
  have width : ¬ m.log2 + 1 = Format.binary64.mantissaBits := by
    have := (Nat.log2_lt (Nat.ne_of_gt pos)).mpr low
    change ¬ m.log2 + 1 = 53
    omega
  have packed : pack Format.binary64 (.finite sign m (-1074) pos) =
      packComponents Format.binary64 sign 0#_ (BitVec.ofNat _ m) := by
    unfold pack
    dsimp only
    rw [if_neg (by decide), if_neg width]
  have kept : (BitVec.ofNat Format.binary64.mantissaBitsWithoutImplicit m).toNat = m := by
    rw [BitVec.toNat_ofNat]
    exact Nat.mod_eq_of_lt low
  rw [packed, unpack_of_least pos unpackExponent_packComponents
    (unpackMantissa_packComponents ▸ kept), unpackSign_packComponents]
  cases sign <;> rfl

theorem Canonical.unpack_pack (h : Canonical m e) (pos : 0 < m) (sign : Sign) :
    unpack Format.binary64 (pack Format.binary64 (.finite sign m e pos)) =
      .finite sign m e pos := by
  rcases h with normal | ⟨low, rfl⟩
  · exact normal.unpack_pack sign
  · exact unpack_pack_least pos low sign

end

theorem unpack_bits_one : unpack Format.binary64 (bits (ofInt 1)) =
    .finite .positive (2 ^ 52) (-52) (by decide) := by
  rfl

/-- A finite double divided by one is the double itself. -/
theorem ofFloat_div_one {x : Float} (finite : x.isFinite = true) :
    ofFloat (x / ofInt 1) = ofFloat x := by
  have fits := fits_of_isFinite finite
  have quotient : unpack Format.binary64 (bits (x / ofInt 1)) =
      unpack Format.binary64 (pack Format.binary64 (div Format.binary64
        (unpack Format.binary64 (bits x)) (unpack Format.binary64 (bits (ofInt 1))))) := rfl
  rw [ofFloat_eq, ofFloat_eq, quotient, unpack_bits_one]
  cases hx : unpack Format.binary64 (bits x) with
  | zero sign => cases sign <;> rfl
  | finite sign m e pos =>
    have canonical : Canonical m e := normal_or_subnormal hx
    rw [div_one canonical pos, canonical.unpack_pack pos]
  | _ =>
    rw [hx] at fits
    exact fits.elim

/-! ### Integer parts -/

theorem exists_exactValue {x : Float} (finite : x.isFinite = true) :
    ∃ q, exactValue? x = some q := by
  obtain ⟨negative, mantissa, exponent, content⟩ := finite_of_isFinite finite
  unfold exactValue?
  rw [content, toRat?_finite]
  exact ⟨_, rfl⟩

theorem finite_of_exactValue {x : Float} {q : Rat} (value : exactValue? x = some q) :
    ∃ negative m e, ofFloat x = .finite negative m e ∧ (finite negative m e).toRat? = some q := by
  unfold exactValue? at value
  cases content : ofFloat x with
  | nan | infinite =>
    rw [content] at value
    cases value
  | finite negative m e => exact ⟨negative, m, e, rfl, content ▸ value⟩

theorem floorDouble_eq {x : Float} {q : Rat} (value : exactValue? x = some q) :
    floorDouble x = .ok q.floor := by
  obtain ⟨negative, m, e, content, given⟩ := finite_of_exactValue value
  unfold floorDouble
  rw [content]
  dsimp only
  rw [given]
  rfl

theorem ceilDouble_eq {x : Float} {q : Rat} (value : exactValue? x = some q) :
    ceilDouble x = .ok q.ceil := by
  obtain ⟨negative, m, e, content, given⟩ := finite_of_exactValue value
  unfold ceilDouble
  rw [content]
  dsimp only
  rw [given]
  rfl

end Binary64

namespace Number

/-- The rational number that a finite number stands for. -/
def exactValue? : Number → Option Rat
  | int i => some i
  | double x => Quarterly.exactValue? x

/-- A number that is one of the doubles, or would be one if there were larger ones. -/
def IsExact : Number → Prop
  | int i => Binary64.Holds i.natAbs
  | double _ => True

theorem double_div_one (x : Float) : (double x).div (int 1) = .ok (x / Binary64.ofInt 1) :=
  double_div_int x (by decide +kernel) (by decide +kernel)

theorem int_div_one {i : Int} (small : ¬ (int i).Oversized) :
    (int i).div (int 1) = .ok (Binary64.nearest (decide (i < 0)) i.natAbs 1) := by
  have sign : (decide (i < 0) != decide ((1 : Int) < 0)) = decide (i < 0) := Bool.bne_false _
  have notInf : (Binary64.nearest (decide (i < 0)) i.natAbs 1).isInf = false := by
    rw [Binary64.isInf_nearest _ _ Nat.one_ne_zero, Nat.mul_one]
    exact decide_eq_false small
  change divideInts i 1 = _
  unfold divideInts
  rw [if_neg one_ne_zero, sign]
  dsimp only
  rw [Int.natAbs_one, notInf]
  rfl

/-- A finite number divided by one keeps its exact value, unless both are integers. -/
theorem exists_div_one {n : Number} (finite : n.IsFinite) (small : ¬ n.Oversized) :
    ∃ x q r, n.div (int 1) = .ok x ∧ n.exactValue? = some q ∧ Quarterly.exactValue? x = some r ∧
      (r = q ↔ n.IsExact) ∧ (r = q ∨ ∃ i j : Int, q = i ∧ r = j) := by
  cases n with
  | double x =>
    obtain ⟨q, value⟩ := Binary64.exists_exactValue finite
    have same : Quarterly.exactValue? (x / Binary64.ofInt 1) = Quarterly.exactValue? x := by
      unfold Quarterly.exactValue?
      rw [Binary64.ofFloat_div_one finite]
    exact ⟨_, q, q, double_div_one x, value, same.trans value, iff_of_true rfl trivial, .inl rfl⟩
  | int i =>
    by_cases zero : i = 0
    · subst zero
      have value : Quarterly.exactValue? (Binary64.nearest false 0 1) = some (0 : Int) := by
        decide +kernel
      exact ⟨_, _, _, int_div_one small, rfl, value, iff_of_true rfl ⟨0, 0, by decide, rfl⟩,
        .inl rfl⟩
    · obtain ⟨k, own, value⟩ :=
        Binary64.exists_exactValue_nearest (Int.natAbs_ne_zero.mpr zero) (Nat.not_le.mp small)
      refine ⟨_, _, _, int_div_one small, rfl, value _, ?_, .inr ⟨_, _, rfl, rfl⟩⟩
      rw [Int.cast_inj]
      refine Iff.trans ?_ own
      by_cases below : i < 0
      · rw [decide_eq_true below, if_pos rfl]
        omega
      · rw [decide_eq_false below, if_neg Bool.false_ne_true]
        omega

end Number

end Quarterly
