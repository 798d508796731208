import Quarterly.Formula.Library
import Quarterly.Proofs.Number.Oversized

/-!
# Where numbers make operators and criteria fault

Wherever numbers have no result the answer is null, with one exception: an integer beyond the range
of the doubles ends an evaluation where it has to become a double. A truth value needs a double; an
operator or a criterion needs one when the other number is a double. Everything is stated about the
operands alone, so that library functions can be told apart by the same conditions.
-/

namespace Quarterly

/-- A fault of a number beyond the range of the doubles. -/
def Formula.Fault.IsOverflow (fault : Fault) : Prop :=
  ∃ cause, fault = .numeric cause ∧ cause.IsOverflow

namespace FaultsWhen

open Formula

variable {α β : Type} {p q : Prop}

/-- Check the number of arguments first. -/
theorem checked {Cause : Fault → Prop} {function : String} {accepted : Arity} {count : Nat}
    {f : Unit → Except Fault α} (h : accepted.accepts count = true)
    (hf : FaultsWhen Cause p (f ())) :
    FaultsWhen Cause p (checkArity function accepted count >>= f) := by
  unfold checkArity
  rw [if_pos h]
  exact hf

/-- Form a number first. -/
theorem form {x : Except NumericFault α} {f : α → Except Fault β}
    (hx : FaultsWhen NumericFault.IsOverflow q x) (first : q → p)
    (hf : ∀ a, x = .ok a → ¬ q → FaultsWhen Fault.IsOverflow p (f a)) :
    FaultsWhen Fault.IsOverflow p ((liftM x : Except Fault α) >>= f) := by
  cases x with
  | ok a => exact hf a rfl hx
  | error cause => exact .throw ⟨cause, rfl, hx.1⟩ (first hx.2)

/-- End with a computation on numbers. -/
theorem lift {x : Except NumericFault α} (h : FaultsWhen NumericFault.IsOverflow p x) :
    FaultsWhen Fault.IsOverflow p (liftM x : Except Fault α) := by
  cases x with
  | ok a => exact h
  | error cause => exact .throw ⟨cause, rfl, h.1⟩ h.2

/-- A number is formed and used, whatever it is. -/
theorem formed {x : Except NumericFault α} {f : α → β}
    (h : FaultsWhen NumericFault.IsOverflow p x) :
    FaultsWhen Fault.IsOverflow p ((liftM x : Except Fault α) >>= fun a => .ok (f a)) :=
  h.form id fun _ _ small => .pure small

end FaultsWhen

namespace Number

variable {n : Number}

theorem clashes_double_iff {x : Float} : n.Clashes (double x) ↔ n.Oversized := by
  cases n with
  | int i => exact Iff.rfl
  | double y => exact Iff.rfl

theorem not_oversized_of_equal_zero (zero : n.equal (int 0) = true) : ¬ n.Oversized := by
  cases n with
  | double x => exact id
  | int i =>
    obtain rfl : i = 0 := by simpa [equal, order] using zero
    decide +kernel

end Number

namespace Formula

/-! ### Operators -/

/-- An arithmetic operator would have to make a double of too large an integer. -/
def ArithmeticOp.Overflows : ArithmeticOp → Value → Value → Prop
  | div, .number a, .number b => b.equal (.int 0) = false ∧ a.QuotientOverflows b
  | _, .number a, .number b => a.Clashes b
  | _, _, _ => False

/-- A comparison operator would have to make a double of too large an integer: for the difference,
or for the drift that the weak orders add to the second operand or take from it. -/
def ComparisonOp.Overflows (op : ComparisonOp) : Value → Value → Prop
  | .number a, .number b => a.Clashes b ∨ (op = atLeast ∨ op = atMost) ∧ b.Oversized
  | _, _ => False

theorem faults_arithmetic (op : ArithmeticOp) (left right : Value) :
    FaultsWhen NumericFault.IsOverflow (op.Overflows left right) (arithmetic op left right) := by
  cases left with
  | number a =>
    cases right with
    | number b =>
      have onNumbers : FaultsWhen NumericFault.IsOverflow
          (op.Overflows (.number a) (.number b)) (op.onNumbers a b) := by
        cases op with
        | add => exact (a.faults_add b).map
        | sub => exact (a.faults_sub b).map
        | mul => exact (a.faults_mul b).map
        | div =>
          unfold ArithmeticOp.onNumbers
          cases zero : b.equal (.int 0) with
          | true => exact .pure (by simp [ArithmeticOp.Overflows, zero])
          | false =>
            exact (Number.faults_div zero).bind (⟨zero, ·⟩) fun _ _ small => .pure (small ·.2)
      exact onNumbers.map
    | _ => cases op <;> exact .pure id
  | _ => cases op <;> exact .pure id

theorem faults_onNumbers (op : ComparisonOp) (a b difference : Number) :
    FaultsWhen NumericFault.IsOverflow ((op = .atLeast ∨ op = .atMost) ∧ b.Oversized)
      (op.onNumbers a b difference) := by
  cases op with
  | atLeast => exact (b.faults_sub _).map.congr (by simp [Number.clashes_double_iff])
  | atMost => exact (b.faults_add _).map.congr (by simp [Number.clashes_double_iff])
  | _ => exact .pure (by simp)

theorem faults_comparison (op : ComparisonOp) (left right : Value) :
    FaultsWhen NumericFault.IsOverflow (op.Overflows left right) (comparison op left right) := by
  unfold comparison
  split
  · exact .pure id
  · exact .pure (by cases left <;> exact id)
  · rename_i a b
    exact (a.faults_sub b).bind .inl fun difference _ apart =>
      (faults_onNumbers op a b difference).congr (or_iff_right apart)
  · rename_i noNumbers
    refine .pure fun overflows => ?_
    unfold ComparisonOp.Overflows at overflows
    split at overflows
    · exact noNumbers _ _ rfl rfl
    · exact overflows

theorem faults_percent (n : Number) :
    FaultsWhen NumericFault.IsOverflow (n.QuotientOverflows (.int 100)) (percent n) := by
  have hundred : Number.equal (.int 100) (.int 0) = false := by decide
  exact (Number.faults_div hundred).map

namespace Value

/-! ### Single values -/

/-- A number without a double. -/
def Oversized : Value → Prop
  | number n => n.Oversized
  | _ => False

instance : DecidablePred Oversized
  | number n => inferInstanceAs (Decidable n.Oversized)
  | null | bool _ | text _ | array .. | lambda .. => inferInstanceAs (Decidable False)

/-- Two numbers of which one is a double and the other one has none. -/
def Clashes : Value → Value → Prop
  | number a, number b => a.Clashes b
  | _, _ => False

/-- The number that a value adds to a sum; NaN adds nothing. -/
def summand? : Value → Option Number
  | number (.int i) => some (.int i)
  | number (.double x) => if x.isNaN then none else some (.double x)
  | _ => none

theorem faults_truth (v : Value) : FaultsWhen NumericFault.IsOverflow v.Oversized v.truth := by
  cases v with
  | number n =>
    exact .ite (fun zero => .pure (Number.not_oversized_of_equal_zero zero))
      fun _ => n.faults_isNaN.map
  | _ => exact .pure id

theorem faults_number? (v : Value) : FaultsWhen NumericFault.IsOverflow v.Oversized v.number? := by
  cases v with
  | number n => exact n.faults_isNaN.map
  | _ => exact .pure id

theorem number?_eq {v : Value} (small : ¬ v.Oversized) : v.number? = .ok v.summand? := by
  cases v with
  | number n =>
    cases n with
    | int i =>
      change (Number.int i).isNaN >>= _ = _
      rw [Number.isNaN_int small]
      rfl
    | double x => rfl
  | _ => rfl

theorem not_oversized_of_summand {v : Value} {n : Number} (small : ¬ v.Oversized)
    (h : v.summand? = some n) : ¬ n.Oversized := by
  unfold summand? at h
  split at h
  · cases h
    exact small
  · split at h <;> cases h
    exact id
  · cases h

/-! ### Criteria -/

/-- A value has no double although a criterion compares it with one: the criterion is a double, or
a text that demands equality with a number. The other signs compare exactly. -/
def ClashesWith (v : Value) : Value → Prop
  | number threshold => v.Clashes (number threshold)
  | text s => v.Oversized ∧ ∃ rest,
    CriterionSign.split? (Text.trim s).toList = some (.equal, rest) ∧
      (leadingNumber? (String.ofList rest)).isSome
  | _ => False

theorem faults_signed (n : Number) (threshold : Float) (sign : CriterionSign) :
    FaultsWhen NumericFault.IsOverflow (sign = .equal ∧ n.Oversized)
      (sign.onNumbers n (.double threshold)) := by
  cases sign with
  | equal => exact (n.faults_sub _).map.congr (by simp [Number.clashes_double_iff])
  | _ => exact .pure (by simp)

theorem faults_matchesTextCriterion (v : Value) (criterion : String) :
    FaultsWhen NumericFault.IsOverflow
      (v.Oversized ∧ ∃ rest, CriterionSign.split? criterion.toList = some (.equal, rest) ∧
        (leadingNumber? (String.ofList rest)).isSome)
      (v.matchesTextCriterion criterion) := by
  unfold matchesTextCriterion
  cases signed : CriterionSign.split? criterion.toList with
  | none => exact .pure (by simp)
  | some split =>
    obtain ⟨sign, rest⟩ := split
    cases v with
    | number n =>
      cases number : leadingNumber? (String.ofList rest) with
      | some threshold =>
        simp only [number]
        exact (faults_signed n threshold sign).congr (by simp [number, and_comm, Oversized])
      | none =>
        simp only [number]
        cases sign <;> exact .pure (by simp [number])
    | _ => cases sign <;> exact .pure fun both => both.1

theorem faults_matchesCriterion (v criterion : Value) :
    FaultsWhen NumericFault.IsOverflow (v.ClashesWith criterion)
      (v.matchesCriterion criterion) := by
  cases criterion with
  | text s => exact faults_matchesTextCriterion v (Text.trim s)
  | number threshold =>
    cases v with
    | number n => exact (n.faults_sub threshold).map
    | _ => exact .pure id
  | _ => exact .pure id

end Value

/-! ### Several values -/

theorem faults_numbersOf (args : List Value) :
    FaultsWhen NumericFault.IsOverflow (∃ v ∈ args, v.Oversized) (numbersOf args) := by
  induction args with
  | nil => exact .pure (by simp)
  | cons v rest ih =>
    refine v.faults_number?.bind (fun large => ⟨v, List.mem_cons_self, large⟩) fun n? _ small => ?_
    refine ih.bind (fun ⟨u, hu, large⟩ => ⟨u, List.mem_cons_of_mem v hu, large⟩)
      fun ns _ others => ?_
    exact .pure (by simpa [small] using others)

theorem numbersOf_of_small {args : List Value} (small : ∀ v ∈ args, ¬ v.Oversized) :
    numbersOf args = .ok (args.filterMap Value.summand?) := by
  induction args with
  | nil => rfl
  | cons v rest ih =>
    obtain ⟨first, others⟩ := List.forall_mem_cons.mp small
    unfold numbersOf
    rw [Value.number?_eq first, ih others, List.filterMap_cons]
    cases v.summand? <;> rfl

theorem small_summands {args : List Value} (small : ∀ v ∈ args, ¬ v.Oversized) :
    ∀ n ∈ args.filterMap Value.summand?, ¬ n.Oversized := by
  intro n hn
  obtain ⟨v, hv, h⟩ := List.mem_filterMap.mp hn
  exact Value.not_oversized_of_summand (small v hv) h

/-- One of the numbers of a sum has no double, or the integers in front of the first double add up
to one that has none. -/
def SumOverflows (args : List Value) : Prop :=
  (∃ v ∈ args, v.Oversized) ∨
    (Number.int (Number.leadingSum (args.filterMap Value.summand?))).Oversized

/-- A walk along a list reaches an item at which it breaks: all items before let it pass. -/
def Reaches {α : Type} (Passes Breaks : α → Prop) (items : List α) : Prop :=
  ∃ before item after, items = before ++ item :: after ∧ (∀ a ∈ before, Passes a) ∧ Breaks item

namespace Reaches

variable {α : Type} {Passes Breaks : α → Prop}

theorem not_nil : ¬ Reaches Passes Breaks [] := by
  rintro ⟨before, item, after, h, -⟩
  simp at h

theorem cons_iff {a : α} {rest : List α} :
    Reaches Passes Breaks (a :: rest) ↔ Breaks a ∨ Passes a ∧ Reaches Passes Breaks rest := by
  constructor
  · rintro ⟨_ | ⟨b, before⟩, item, after, ⟨⟩, passes, breaks⟩
    · exact .inl breaks
    · obtain ⟨first, others⟩ := List.forall_mem_cons.mp passes
      exact .inr ⟨first, before, item, after, rfl, others, breaks⟩
  · rintro (breaks | ⟨first, before, item, after, rfl, others, breaks⟩)
    · exact ⟨[], a, rest, rfl, by simp, breaks⟩
    · exact ⟨a :: before, item, after, rfl, List.forall_mem_cons.mpr ⟨first, others⟩, breaks⟩

end Reaches

end Formula

end Quarterly
