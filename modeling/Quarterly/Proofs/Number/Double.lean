import Mathlib.Data.List.TakeWhile
import Quarterly.Number.Basic
import Quarterly.Number.Numeral

/-!
# Arithmetic that never leaves the doubles

Reading the fields of a double tells the same as unpacking it: which doubles are finite, and which
are zero. A double that compares equal to zero is a zero by its exact value, so the check before a
division catches every divisor that the division would refuse. Arithmetic on doubles therefore never
faults; only integers can be too large.
-/

namespace Quarterly

open Float.Model (Format UnpackedFloat)
open Float.Model.UnpackedFloat (unpackExponent unpackMantissa unpackSign)

namespace Binary64

/-- The bits of a double. -/
def bits (x : Float) : BitVec Format.binary64.numBits := x.toModel.toBits.toBitVec

theorem toNat_toBits (x : Float) : x.toBits.toNat = (bits x).toNat := rfl

theorem exponentField_eq (x : Float) :
    (x.toBits.toNat >>> 52) % 2048 = (unpackExponent (bits x)).toNat := by
  simp [toNat_toBits, unpackExponent, BitVec.extractLsb_toNat]

theorem fractionField_eq (x : Float) :
    x.toBits.toNat % hiddenBit = (unpackMantissa (bits x)).toNat := by
  simp [toNat_toBits, unpackMantissa, BitVec.extractLsb_toNat, hiddenBit]

theorem finite_of_isFinite {x : Float} (h : x.isFinite = true) :
    ∃ negative mantissa exponent, ofFloat x = .finite negative mantissa exponent := by
  have normal : unpackExponent (bits x) ≠ -1#_ := by
    intro full
    change (UnpackedFloat.unpack Format.binary64 (bits x)).isFinite = true at h
    unfold UnpackedFloat.unpack at h
    dsimp only at h
    rw [if_pos full] at h
    split at h <;> cases h
  have field : (x.toBits.toNat >>> 52) % 2048 ≠ 2047 := by
    rw [exponentField_eq]
    intro hf
    exact normal (BitVec.eq_of_toNat_eq hf)
  unfold ofFloat
  simp only [if_neg field]
  split
  · exact ⟨_, _, _, rfl⟩
  · exact ⟨_, _, _, rfl⟩

theorem unpack_zero : UnpackedFloat.unpack Format.binary64 (bits 0) = .zero .positive := by
  rfl

/-- Only the two zeros compare equal to zero. -/
theorem unpack_of_beq_zero {x : Float} (h : (x == 0) = true) :
    ∃ sign, UnpackedFloat.unpack Format.binary64 (bits x) = .zero sign := by
  change ((UnpackedFloat.unpack Format.binary64 (bits x)).compare
    (UnpackedFloat.unpack Format.binary64 (bits 0)) == some .eq) = true at h
  rw [unpack_zero] at h
  cases hx : UnpackedFloat.unpack Format.binary64 (bits x) with
  | zero sign => exact ⟨sign, rfl⟩
  | notANumber =>
    rw [hx] at h
    cases h
  | infinity sign | finite sign =>
    rw [hx] at h
    cases sign <;> cases h

/-- Zero is unpacked from bits whose exponent field and fraction field are empty. -/
theorem empty_of_unpack_zero {b : BitVec Format.binary64.numBits} {sign : UnpackedFloat.Sign}
    (h : UnpackedFloat.unpack Format.binary64 b = .zero sign) :
    unpackExponent b = 0#_ ∧ unpackMantissa b = 0#_ := by
  unfold UnpackedFloat.unpack at h
  dsimp only at h
  by_cases full : unpackExponent b = -1#_
  · rw [if_pos full] at h
    split at h <;> cases h
  · rw [if_neg full] at h
    by_cases lowest : unpackExponent b = 0#_
    · rw [if_pos lowest] at h
      by_cases empty : unpackMantissa b = 0#_
      · exact ⟨lowest, empty⟩
      · rw [dif_neg empty] at h
        cases h
    · rw [if_neg lowest] at h
      cases h

theorem ofFloat_of_beq_zero {x : Float} (h : (x == 0) = true) :
    ∃ negative, ofFloat x = .finite negative 0 (-1074) := by
  obtain ⟨sign, hx⟩ := unpack_of_beq_zero h
  have least := empty_of_unpack_zero hx
  unfold ofFloat
  simp only [exponentField_eq, fractionField_eq, least.1, least.2, BitVec.toNat_zero]
  exact ⟨_, rfl⟩

end Binary64

namespace Number

/-- A double that compares equal to zero is zero by its exact value. -/
theorem equal_zero_of_beq {x : Float} (h : (x == 0) = true) :
    Number.equal (.double x) (.int 0) = true := by
  obtain ⟨negative, hx⟩ := Binary64.ofFloat_of_beq_zero h
  have order : compareIntDouble 0 x = some .eq := by
    unfold compareIntDouble
    split <;> rename_i hf <;> rw [hx] at hf <;> cases hf
    cases negative <;> decide +kernel
  change ((compareIntDouble 0 x).map Ordering.swap == some .eq) = true
  rw [order]
  rfl

/-- A number that is a double. -/
def IsDouble : Number → Prop
  | .int _ => False
  | .double _ => True

theorem IsDouble.exists_double {n : Number} (h : n.IsDouble) : ∃ x, n = .double x := by
  cases n with
  | int i => exact h.elim
  | double x => exact ⟨x, rfl⟩

/-- A quotient of doubles is checked for a zero divisor before it is formed. -/
theorem div_doubles {x y : Float} (h : Number.equal (.double y) (.int 0) = false) :
    (Number.double x).div (.double y) = .ok (x / y) := by
  have nonzero : (y == 0) = false := by
    cases hy : y == 0 with
    | false => rfl
    | true =>
      rw [equal_zero_of_beq hy] at h
      cases h
  change (if y == 0 then throw .zeroDivisor else pure (x / y) : Except NumericFault Float) = _
  rw [nonzero]
  rfl

/-- A double is divided by an integer as by the double of the integer. -/
theorem double_div_int (x : Float) {j : Int} (finite : (Binary64.ofInt j).isInf = false)
    (nonzero : (Binary64.ofInt j == 0) = false) :
    (Number.double x).div (.int j) = .ok (x / Binary64.ofInt j) := by
  have divisor : (Number.int j).toDouble = .ok (Binary64.ofInt j) := by
    unfold Number.toDouble
    simp only [finite]
    rfl
  change (do
    let y ← (Number.int j).toDouble
    if y == 0 then throw .zeroDivisor else pure (x / y) : Except NumericFault Float) = _
  rw [divisor]
  change (if Binary64.ofInt j == 0 then throw .zeroDivisor else pure _ :
    Except NumericFault Float) = _
  rw [nonzero]
  rfl

theorem div_hundred (x : Float) :
    (Number.double x).div (.int 100) = .ok (x / Binary64.ofInt 100) :=
  double_div_int x (by decide +kernel) (by decide +kernel)

end Number

/-- A finite double has an integer part. -/
theorem exists_truncateDouble {x : Float} (h : x.isFinite = true) :
    ∃ i, truncateDouble x = .ok i := by
  obtain ⟨negative, mantissa, exponent, hx⟩ := Binary64.finite_of_isFinite h
  have floor : ∃ i, floorDouble x = .ok i := by
    unfold floorDouble
    split <;> rename_i hf <;> rw [hx] at hf <;> cases hf
    exact ⟨_, rfl⟩
  have ceil : ∃ i, ceilDouble x = .ok i := by
    unfold ceilDouble
    split <;> rename_i hf <;> rw [hx] at hf <;> cases hf
    exact ⟨_, rfl⟩
  unfold truncateDouble
  split
  · exact ceil
  · exact floor

/-! ### Numerals -/

/-- Digits with at most one point among them. -/
structure PlainNumeral (cs : List Char) : Prop where
  chars : ∀ c ∈ cs, c.isDigit = true ∨ c = '.'
  points : cs.count '.' ≤ 1
  digit : ∃ c ∈ cs, c.isDigit = true

instance (cs : List Char) : Decidable (PlainNumeral cs) :=
  decidable_of_iff (cs.all (fun c => c.isDigit || c == '.') = true ∧ cs.count '.' ≤ 1 ∧
      cs.any (·.isDigit) = true) <| by
    constructor
    · rintro ⟨chars, points, digit⟩
      exact ⟨by simpa using chars, points, by simpa using digit⟩
    · intro h
      exact ⟨by simpa using h.chars, h.points, by simpa using h.digit⟩

theorem isDecimal_of_isDigit {c : Char} (h : c.isDigit = true) : Text.isDecimal c = true := by
  have bounds : 48 ≤ c.val ∧ c.val ≤ 57 := by simpa [Char.isDigit] using h
  have ascii : c.val < 128 := by
    have upper := UInt32.le_iff_toNat_le.mp bounds.2
    rw [UInt32.lt_iff_toNat_lt]
    exact Nat.lt_of_le_of_lt upper (by decide)
  have digit : '0' ≤ c ∧ c ≤ '9' := bounds
  unfold Text.isDecimal Text.decimalValue?
  rw [if_pos ascii, if_pos digit]
  rfl

namespace PlainNumeral

variable {cs : List Char}

theorem splitSign (h : PlainNumeral cs) : Numeral.splitSign cs = (false, cs) := by
  have chars := h.chars
  unfold Numeral.splitSign
  split
  · have first := chars '-' (by simp)
    exact absurd first (by decide)
  · have first := chars '+' (by simp)
    exact absurd first (by decide)
  · rfl

/-- Behind the digits at the start stands nothing, or a point and the other digits. -/
theorem dropWhile (h : PlainNumeral cs) : cs.dropWhile Text.isDecimal = [] ∨
    ∃ after, cs.dropWhile Text.isDecimal = '.' :: after ∧
      ∀ c ∈ after, Text.isDecimal c = true := by
  cases hd : cs.dropWhile Text.isDecimal with
  | nil => exact .inl rfl
  | cons c after =>
    right
    have suffix : (c :: after) <:+ cs := hd ▸ List.dropWhile_suffix _
    have notDecimal : Text.isDecimal c = false := by
      have head := List.head?_dropWhile_not Text.isDecimal cs
      rw [hd] at head
      simpa using head
    have point : c = '.' := by
      rcases h.chars c (suffix.subset (by simp)) with digit | point
      · rw [isDecimal_of_isDigit digit] at notDecimal
        cases notDecimal
      · exact point
    subst point
    refine ⟨after, rfl, fun d hd => ?_⟩
    rcases h.chars d (suffix.subset (by simp [hd])) with digit | rfl
    · exact isDecimal_of_isDigit digit
    · have once := Nat.le_trans (suffix.sublist.count_le '.') h.points
      have again := List.count_pos_iff.mpr hd
      rw [List.count_cons_self] at once
      omega

/-- A plain numeral is read to its end. -/
theorem exists_split? (h : PlainNumeral cs) : ∃ n, Numeral.split? cs = some (n, []) := by
  obtain ⟨c, hc, digit⟩ := h.digit
  have whole := List.takeWhile_append_dropWhile (p := Text.isDecimal) (l := cs)
  unfold Numeral.split?
  rw [h.splitSign]
  dsimp only
  rcases h.dropWhile with rest | ⟨after, rest, digits⟩
  · have notEmpty : cs.takeWhile Text.isDecimal ≠ [] := by
      intro empty
      rw [empty, rest] at whole
      rw [← whole] at hc
      cases hc
    rw [rest]
    simp [notEmpty, Numeral.splitExponent]
  · have notEmpty : ¬ (cs.takeWhile Text.isDecimal = [] ∧ after = []) := by
      rintro ⟨empty, rfl⟩
      rw [empty, rest] at whole
      rw [← whole] at hc
      obtain rfl : c = '.' := by simpa using hc
      exact absurd digit (by decide)
    have taken : after.takeWhile Text.isDecimal = after := List.takeWhile_eq_self_iff.mpr digits
    have dropped : after.dropWhile Text.isDecimal = [] := List.dropWhile_eq_nil_iff.mpr digits
    rw [rest]
    simp only [taken, dropped]
    rw [if_neg (by simpa using notEmpty)]
    exact ⟨_, rfl⟩

theorem exists_wholeFloat? (h : PlainNumeral cs) : ∃ x, wholeFloat? cs = some x := by
  obtain ⟨n, hn⟩ := h.exists_split?
  exact ⟨n.toFloat, by rw [wholeFloat?, hn]⟩

end PlainNumeral

end Quarterly
