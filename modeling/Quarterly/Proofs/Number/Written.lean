import Quarterly.Number.Basic

/-!
# The characters of numbers

However a double is written, with digits and a point, with an exponent or as a word, it is written
with ASCII letters and digits, points and signs.
-/

namespace Quarterly

/-- Whether a character can stand in the text of a number. -/
def isNumeric (c : Char) : Bool := c.isAlphanum || c == '.' || c == '-' || c == '+'

theorem isNumeric_of_isDigit {c : Char} (h : c.isDigit = true) : isNumeric c = true := by
  simp [isNumeric, Char.isAlphanum, h]

theorem isNumeric_of_mem_toDigits {c : Char} {n : Nat} (h : c ∈ Nat.toDigits 10 n) :
    isNumeric c = true :=
  isNumeric_of_isDigit (Nat.isDigit_of_mem_toDigits (by decide) (by decide) h)

theorem isNumeric_of_mem_replicate {c : Char} {n : Nat} (h : c ∈ List.replicate n '0') :
    isNumeric c = true := by
  rw [List.eq_of_mem_replicate h]
  decide

namespace DoubleLayout

variable {c : Char} {digits : List Char}

theorem isNumeric_of_mem_positional (isNumeric : ∀ c ∈ digits, isNumeric c = true) {point : Int}
    (h : c ∈ positional digits point) : Quarterly.isNumeric c = true := by
  unfold positional at h
  dsimp only at h
  split at h
  · simp only [List.cons_append, List.mem_cons, List.mem_append] at h
    rcases h with rfl | rfl | h | h
    · decide
    · decide
    · exact isNumeric_of_mem_replicate h
    · exact isNumeric c h
  split at h
  · simp only [List.mem_append, List.mem_cons, List.not_mem_nil, or_false] at h
    rcases h with (h | h) | rfl | rfl
    · exact isNumeric c h
    · exact isNumeric_of_mem_replicate h
    · decide
    · decide
  · simp only [List.mem_append, List.mem_cons] at h
    rcases h with h | rfl | h
    · exact isNumeric c (List.mem_of_mem_take h)
    · decide
    · exact isNumeric c (List.mem_of_mem_drop h)

theorem isNumeric_of_mem_scientific (isNumeric : ∀ c ∈ digits, isNumeric c = true)
    {layout : DoubleLayout} {power : Int} (h : c ∈ layout.scientific digits power) :
    Quarterly.isNumeric c = true := by
  simp only [scientific, List.append_assoc, List.cons_append, List.mem_append, List.mem_cons] at h
  rcases h with h | h | rfl | rfl | h | h
  · exact isNumeric c (List.mem_of_mem_take h)
  · split at h
    · cases h
    · rcases List.mem_cons.mp h with rfl | h
      · decide
      · exact isNumeric c (List.mem_of_mem_drop h)
  · decide
  · split <;> decide
  · exact isNumeric_of_mem_replicate h
  · exact isNumeric_of_mem_toDigits h

theorem isNumeric_of_mem_write {layout : DoubleLayout}
    (nan : layout.nan.toList.all isNumeric = true)
    (infinity : layout.infinity.toList.all isNumeric = true) {x : Float}
    (h : c ∈ (layout.write x).toList) : isNumeric c = true := by
  have signed (negative : Bool) {s : String} (h : c ∈ ((if negative then "-" else "") ++ s).toList)
      (text : c ∈ s.toList → isNumeric c = true) : isNumeric c = true := by
    rw [String.toList_append] at h
    rcases List.mem_append.mp h with h | h
    · cases negative
      · simp at h
      · obtain rfl : c = '-' := by simpa using h
        decide
    · exact text h
  unfold write at h
  split at h
  · exact List.all_eq_true.mp nan c h
  · exact signed _ h (List.all_eq_true.mp infinity c)
  · refine signed _ h fun h => ?_
    rw [String.toList_ofList] at h
    split at h
    · have zero : ['0', '.', '0'].all isNumeric = true := by decide
      exact List.all_eq_true.mp zero c h
    · have digits (d : Decimal) : ∀ c ∈ d.digits, isNumeric c = true :=
        fun _ hc => isNumeric_of_mem_toDigits hc
      unfold writeDecimal at h
      dsimp only at h
      split at h
      · exact isNumeric_of_mem_positional (digits _) h
      · exact isNumeric_of_mem_scientific (digits _) h

end DoubleLayout

namespace Number

theorem isNumeric_of_mem_toString {c : Char} {i : Int} (h : c ∈ (toString i).toList) :
    isNumeric c = true := by
  rw [Int.toString_eq_repr, Int.repr_eq_if] at h
  split at h
  · rw [Nat.toList_repr] at h
    exact isNumeric_of_mem_toDigits h
  · rw [String.toList_append, Nat.toList_repr] at h
    rcases List.mem_append.mp h with h | h
    · obtain rfl : c = '-' := by simpa using h
      decide
    · exact isNumeric_of_mem_toDigits h

theorem isNumeric_of_mem_doubleText {c : Char} {x : Float} (h : c ∈ (doubleText x).toList) :
    isNumeric c = true := by
  have word {s : String} (numeric : s.toList.all isNumeric = true) (h : c ∈ s.toList) :
      isNumeric c = true := List.all_eq_true.mp numeric c h
  have written (h : c ∈ (DoubleLayout.plain.write x).toList) : isNumeric c = true :=
    DoubleLayout.isNumeric_of_mem_write (by decide) (by decide) h
  unfold doubleText at h
  split at h
  · exact word (by decide) h
  split at h
  · split at h <;> exact word (by decide) h
  split at h
  · split at h
    · exact isNumeric_of_mem_toString h
    · exact written h
  · exact written h

end Number

end Quarterly
