import Quarterly.Proofs.Formula.Derivation
import Quarterly.Proofs.Number.Double

/-!
# What a dry reading accepts

A dry reading looks nothing up and calls nothing, so the only numbers it meets are numerals and what
operators make of them: doubles throughout. None of the faults of arithmetic can occur then, and a
dry reading succeeds exactly on the rows that the grammar derives within the limit.
-/

namespace Quarterly.Formula

/-- A value that is a number only if it is a double. -/
def Value.NoInteger (v : Value) : Prop := ∀ n, v = .number n → n.IsDouble

theorem Value.noInteger_ofFinite (x : Float) : (Value.ofFinite (.double x)).NoInteger := by
  change (if x.isFinite then Value.number (.double x) else .null).NoInteger
  intro n h
  split at h <;> cases h
  exact trivial

section

variable {a b : Value} (ha : a.NoInteger) (hb : b.NoInteger)

include ha

theorem noInteger_negate : (negate a).NoInteger := by
  cases a with
  | number n =>
    obtain ⟨x, rfl⟩ := (ha n rfl).exists_double
    intro n h
    cases h
    exact trivial
  | _ =>
    intro n h
    cases h

include hb

/-- Arithmetic without integers never faults. -/
theorem exists_arithmetic (op : ArithmeticOp) :
    ∃ v, arithmetic op a b = .ok v ∧ v.NoInteger := by
  have null : Value.null.NoInteger := fun _ h => by cases h
  unfold arithmetic
  split
  · rename_i m n
    obtain ⟨x, rfl⟩ := (ha m rfl).exists_double
    obtain ⟨y, rfl⟩ := (hb n rfl).exists_double
    cases op with
    | add => exact ⟨_, rfl, Value.noInteger_ofFinite (x + y)⟩
    | sub => exact ⟨_, rfl, Value.noInteger_ofFinite (x - y)⟩
    | mul => exact ⟨_, rfl, Value.noInteger_ofFinite (x * y)⟩
    | div =>
      unfold ArithmeticOp.onNumbers
      cases hz : Number.equal (.double y) (.int 0) with
      | true => exact ⟨.null, rfl, null⟩
      | false =>
        simp only [Number.div_doubles hz]
        exact ⟨_, rfl, Value.noInteger_ofFinite (x / y)⟩
  · exact ⟨.null, rfl, null⟩

/-- A comparison without integers never faults. -/
theorem exists_comparison (op : ComparisonOp) : ∃ result, comparison op a b = .ok result := by
  unfold comparison
  split
  · exact ⟨false, rfl⟩
  · exact ⟨false, rfl⟩
  · rename_i m n
    obtain ⟨x, rfl⟩ := (ha m rfl).exists_double
    obtain ⟨y, rfl⟩ := (hb n rfl).exists_double
    cases op <;> exact ⟨_, rfl⟩
  · exact ⟨_, rfl⟩

end

theorem exists_percent {n : Number} (h : n.IsDouble) :
    ∃ v, percent n = .ok v ∧ v.NoInteger := by
  obtain ⟨x, rfl⟩ := h.exists_double
  refine ⟨.number (.double (x / Binary64.ofInt 100)), ?_, ?_⟩
  · unfold percent
    rw [Number.div_hundred]
    rfl
  · intro n hn
    cases hn
    exact trivial

/-! ### Plain rows -/

/-- A row without `LET` whose numerals are written with the ten digits and at most one point, and
whose indexes are not beyond the doubles. -/
structure PlainRow (tokens : Array Token) : Prop where
  ends : EndsOnce tokens
  noLet : ∀ p, functionAt tokens p ≠ some letName
  numerals : ∀ (p : Nat) (token : Token), tokens[p]? = some token → token.kind = .number →
    PlainNumeral token.text.toList
  indexes : ∀ (p : Nat) (token : Token), kindAt tokens p = some .leftBracket →
    tokens[p + 1]? = some token → token.kind = .number →
      ∀ x, numeralValue token.text = .ok x → x.isFinite = true

variable {tokens : Array Token}

theorem PlainRow.exists_numeralValue (plain : PlainRow tokens) {p : Nat} {token : Token}
    (ht : tokens[p]? = some token) (kind : token.kind = .number) :
    ∃ x, numeralValue token.text = .ok x := by
  obtain ⟨x, hx⟩ := (plain.numerals p token ht kind).exists_wholeFloat?
  refine ⟨x, ?_⟩
  unfold numeralValue
  rw [hx]
  rfl

/-- While a plain row is read dry, every number is a double and nothing can go wrong with values. -/
def PlainRow.dryDiscipline (plain : PlainRow tokens) : Discipline tokens where
  Admits := fun mode => mode = .dry
  Good := Value.NoInteger
  Allows := fun _ => False
  dry := rfl
  ordinary h := h.elim
  null := fun _ h => by cases h
  bool _ := fun _ h => by cases h
  text _ := fun _ h => by cases h
  array _ := fun _ h => by cases h
  lambda _ := fun _ h => by cases h
  numeral := by
    intro p token ht kind
    obtain ⟨x, hx⟩ := plain.exists_numeralValue ht kind
    rw [hx]
    exact Value.noInteger_ofFinite x
  index := by
    intro p token opening ht kind
    obtain ⟨x, hx⟩ := plain.exists_numeralValue ht kind
    obtain ⟨i, hi⟩ := exists_truncateDouble (plain.indexes p token opening ht kind x hx)
    have index : Rule.quarterIndex token = .ok i := by
      unfold Rule.quarterIndex
      simp only [kind, hx]
      change (liftM (truncateDouble x) : Except Fault Int) = .ok i
      rw [hi]
      rfl
    rw [index]
    trivial
  arithmetic := by
    intro op a b ha hb
    obtain ⟨v, hv, good⟩ := exists_arithmetic ha hb op
    rw [hv]
    exact good
  comparison := by
    intro op a b ha hb
    obtain ⟨result, hr⟩ := exists_comparison ha hb op
    rw [hr]
    trivial
  negate := noInteger_negate
  percent := by
    intro n h
    obtain ⟨v, hv, good⟩ := exists_percent (h n rfl)
    rw [hv]
    exact good
  found live := by cases live
  tooDeep live := by cases live
  notInLibrary live := by cases live
  builtin live := by cases live
  mapping live := by cases live

/-! ### Acceptance -/

/-- An array of a numeral and a reference by a numeral. -/
def pair : Context where
  formula := "\x7b1,-Sales[2]\x7d".toList
  tokens := #[⟨.leftBrace, "\x7b", 0⟩, ⟨.number, "1", 1⟩, ⟨.comma, ",", 2⟩, ⟨.operator, "-", 3⟩,
    ⟨.identifier, "Sales", 4⟩, ⟨.leftBracket, "[", 9⟩, ⟨.number, "2", 10⟩,
    ⟨.rightBracket, "]", 11⟩, ⟨.rightBrace, "\x7d", 12⟩, ⟨.endMark, "", 13⟩]
  table := ⟨[], [], 0⟩
  maxDepth := 2

end Quarterly.Formula
