import Quarterly.Formula.Library

/-!
# What library functions answer with

A library function makes no arrays and lambdas out of nothing: every value in its answer is a
scalar, one of its arguments or an item of one of them. If it faults, it was given a wrong number
of arguments or a number could not be formed.
-/

namespace Quarterly.Formula

/-- The values that an answer consists of. -/
def Answer.values : Answer → List Value
  | value v => [v]
  | newArray items => items

/-- Neither an array nor a lambda. -/
def Value.IsScalar : Value → Prop
  | null | bool _ | text _ | number _ => True
  | array .. | lambda .. => False

/-- An answer without arrays and lambdas. -/
def Answer.IsScalar (answer : Answer) : Prop := ∀ v ∈ answer.values, v.IsScalar

theorem Answer.isScalar_value {v : Value} (h : v.IsScalar) : (Answer.value v).IsScalar := by
  intro u hu
  obtain rfl : u = v := by simpa [Answer.values] using hu
  exact h

/-- Where a library function can have a value from. -/
inductive Value.From (args : List Value) : Value → Prop where
  | scalar {v} (h : v.IsScalar) : From args v
  | argument {v} (h : v ∈ args) : From args v
  | item {identity items v} (array : .array identity items ∈ args) (h : v ∈ items) : From args v

/-- The faults of library functions. -/
inductive Fault.OfLibrary : Fault → Prop where
  | arity (function accepted count) : OfLibrary (.arity function accepted count)
  | numeric (cause) : OfLibrary (.numeric cause)

/-- An answer that takes its values from some arguments. -/
def Answer.From (args : List Value) (answer : Answer) : Prop := ∀ v ∈ answer.values, v.From args

namespace Answer.From

variable {args : List Value}

theorem scalar {answer : Answer} (h : answer.IsScalar) : answer.From args :=
  fun v hv => .scalar (h v hv)

theorem value {v : Value} (h : v.From args) : (Answer.value v).From args := by
  intro u hu
  obtain rfl : u = v := by simpa [Answer.values] using hu
  exact h

theorem null : Answer.null.From args := value (.scalar trivial)

end Answer.From

/-- A property of what a computation yields, if it yields anything. -/
def Gives {ε α : Type} (P : α → Prop) (x : Except ε α) : Prop := ∀ a, x = .ok a → P a

namespace Gives

variable {ε α β : Type} {P : β → Prop}

theorem pure {b : β} (h : P b) : Gives P (.ok b : Except ε β) := by
  rintro _ ⟨⟩
  exact h

theorem bind {x : Except ε α} {f : α → Except ε β}
    (h : ∀ a, x = .ok a → Gives P (f a)) : Gives P (x >>= f) := by
  cases x with
  | ok a => exact h a rfl
  | error cause =>
    intro b hb
    cases hb

theorem ite {c : Prop} [Decidable c] {x y : Except ε β} (yes : Gives P x)
    (no : Gives P y) : Gives P (if c then x else y) := by
  split
  · exact yes
  · exact no

/-- Check the number of arguments first. -/
theorem arity {function : String} {accepted : Arity} {count : Nat} {f : Unit → Except Fault β}
    (h : Gives P (f ())) : Gives P (checkArity function accepted count >>= f) :=
  bind fun _ _ => h

/-- Form a number first. -/
theorem form {x : Except NumericFault α} {f : α → Except Fault β}
    (h : ∀ a, x = .ok a → Gives P (f a)) : Gives P ((liftM x : Except Fault α) >>= f) := by
  cases x with
  | ok a => exact h a rfl
  | error cause =>
    intro b hb
    cases hb

/-- End with a computation on numbers. -/
theorem lift {x : Except NumericFault β} (h : Gives P x) :
    Gives P (liftM x : Except Fault β) := by
  cases x with
  | ok b => exact pure (h b rfl)
  | error cause =>
    intro b hb
    cases hb

theorem scalar {v : Value} (h : v.IsScalar) :
    Gives Answer.IsScalar (.ok (.value v) : Except ε Answer) :=
  pure (Answer.isScalar_value h)

theorem finiteOrNull (n : Number) : Gives Answer.IsScalar (finiteOrNull n) := by
  refine bind fun isFinite _ => ?_
  cases isFinite <;> exact scalar trivial

/-- A fault gives way to null. -/
theorem nullOnFault {x : Except NumericFault Answer} (h : Gives Answer.IsScalar x) :
    (nullOnFault x).IsScalar := by
  cases x with
  | ok answer => exact h answer rfl
  | error _ => exact Answer.isScalar_value trivial

end Gives

/-- A computation of an answer that takes its values from some arguments and has only faults of
the library. -/
def Supplies (args : List Value) : Except Fault Answer → Prop
  | .ok answer => answer.From args
  | .error fault => fault.OfLibrary

namespace Supplies

variable {args : List Value} {α : Type}

theorem answer {answer : Answer} (h : answer.IsScalar) : Supplies args (.ok answer) :=
  Answer.From.scalar h

theorem scalar {v : Value} (h : v.IsScalar) : Supplies args (.ok (.value v)) :=
  answer (Answer.isScalar_value h)

theorem value {v : Value} (h : v.From args) : Supplies args (.ok (.value v)) :=
  Answer.From.value h

/-- Check the number of arguments first. -/
theorem arity {function : String} {accepted : Arity} {count : Nat}
    {f : Unit → Except Fault Answer} (h : Supplies args (f ())) :
    Supplies args (checkArity function accepted count >>= f) := by
  unfold checkArity
  split
  · exact h
  · exact Fault.OfLibrary.arity function accepted count

/-- Form a number first. -/
theorem bind {x : Except NumericFault α} {f : α → Except Fault Answer}
    (h : ∀ a, x = .ok a → Supplies args (f a)) :
    Supplies args ((liftM x : Except Fault α) >>= f) := by
  cases x with
  | ok a => exact h a rfl
  | error cause => exact .numeric cause

theorem ite {c : Prop} [Decidable c] {x y : Except Fault Answer} (yes : Supplies args x)
    (no : Supplies args y) : Supplies args (if c then x else y) := by
  split
  · exact yes
  · exact no

/-- End with a computation on numbers. -/
theorem lift {x : Except NumericFault Answer}
    (h : Gives (Answer.From args) x) : Supplies args (liftM x) := by
  cases x with
  | ok a => exact h a rfl
  | error cause => exact .numeric cause

theorem liftScalar {x : Except NumericFault Answer} (h : Gives Answer.IsScalar x) :
    Supplies args (liftM x) :=
  lift fun a ha => .scalar (h a ha)

end Supplies

namespace Library

variable {args : List Value}

theorem from_headD : (args.headD .null).From args := by
  cases args with
  | nil => exact .scalar trivial
  | cons v rest => exact .argument (by simp)

theorem from_getD (i : Nat) : (args.getD i .null).From args := by
  rw [List.getD_eq_getElem?_getD]
  cases h : args[i]? with
  | none => exact .scalar trivial
  | some v => exact .argument (List.mem_of_getElem? h)

/-! ### Conditions and null -/

theorem supplies_choose : Supplies args (choose args) := by
  refine .arity (.bind fun isTrue _ => ?_)
  split
  · exact .scalar trivial
  · exact .value (from_getD _)

theorem supplies_and : Supplies args (and args) := .bind fun _ _ => .scalar trivial

theorem supplies_or : Supplies args (or args) := .bind fun _ _ => .scalar trivial

theorem supplies_not : Supplies args (not args) := .arity (.bind fun _ _ => .scalar trivial)

theorem supplies_isNumber : Supplies args (isNumber args) :=
  .arity (.bind fun _ _ => .scalar trivial)

theorem supplies_isBlank : Supplies args (isBlank args) := .arity (.scalar trivial)

theorem supplies_ifError : Supplies args (ifError args) := by
  have chosen (isTrouble : Bool) : Supplies args
      (pure (.value (if isTrouble then args.getD 1 .null else args.headD .null))) := by
    cases isTrouble
    · exact .value from_headD
    · exact .value (from_getD 1)
  refine .arity ?_
  dsimp only
  split
  · exact chosen true
  · exact .bind fun isNaN _ => chosen isNaN
  · exact chosen false

theorem supplies_notNull : Supplies args (notNull args) := by
  refine .arity (.value ?_)
  split
  · exact from_getD 1
  · exact from_headD

theorem supplies_coalesce : Supplies args (coalesce args) := by
  refine .arity (.value ?_)
  cases h : args.find? fun v => !v.isNull with
  | none => exact .scalar trivial
  | some v => exact .argument (List.mem_of_find?_eq_some h)

/-! ### Mathematics -/

theorem supplies_minimum : Supplies args (minimum args) := by
  refine .bind fun ns _ => ?_
  cases Number.least? ns <;> exact .scalar trivial

theorem supplies_maximum : Supplies args (maximum args) := by
  refine .bind fun ns _ => ?_
  cases Number.greatest? ns <;> exact .scalar trivial

theorem supplies_absolute : Supplies args (absolute args) := by
  refine .arity ?_
  split <;> exact .scalar trivial

theorem supplies_sum : Supplies args (sum args) :=
  .bind fun _ _ => .bind fun n _ => .liftScalar (.finiteOrNull n)

theorem supplies_average : Supplies args (average args) := by
  refine .bind fun ns _ => ?_
  split
  · exact .scalar trivial
  · exact .bind fun _ _ => .bind fun _ _ => .liftScalar (.finiteOrNull _)

theorem supplies_count : Supplies args (count args) := .scalar trivial

theorem isScalar_roundScaled (round : Float → Except NumericFault Float) (value digits : Number) :
    Gives Answer.IsScalar (roundScaled round value digits) := by
  refine .bind fun factor _ => ?_
  split
  · exact .scalar trivial
  · refine .bind fun scaled _ => ?_
    split
    · exact .bind fun _ _ => .bind fun _ _ => .scalar trivial
    · exact .scalar trivial

theorem supplies_rounding (name : String) (round : Float → Except NumericFault Float) :
    Supplies args (rounding name round args) := by
  refine .arity (.answer ?_)
  split
  · exact (isScalar_roundScaled round _ _).nullOnFault
  · exact Answer.isScalar_value trivial

theorem supplies_squareRoot : Supplies args (squareRoot args) := by
  refine .arity ?_
  split
  · split
    · exact .scalar trivial
    · exact .bind fun _ _ => .scalar trivial
  · exact .scalar trivial

theorem supplies_power : Supplies args (power args) := by
  refine .arity (.answer ?_)
  split
  · refine Gives.nullOnFault (.bind fun result _ => ?_)
    cases result <;> exact .scalar trivial
  · exact Answer.isScalar_value trivial

theorem supplies_logarithm : Supplies args (logarithm args) := by
  refine .arity ?_
  split
  · exact .ite (.scalar trivial) (.bind fun _ _ => .scalar trivial)
  · exact .scalar trivial

theorem supplies_multiple (name : String) (round : Float → Except NumericFault Int) :
    Supplies args (multiple name round args) := by
  refine .arity (.answer ?_)
  split
  · exact Gives.nullOnFault
      (.bind fun _ _ => .bind fun _ _ => .bind fun _ _ => .scalar trivial)
  · exact Answer.isScalar_value trivial

/-! ### Text and aggregation -/

theorem supplies_trim : Supplies args (trim args) := .arity (.scalar trivial)

theorem supplies_concat : Supplies args (concat args) := .scalar trivial

theorem supplies_sumIf : Supplies args (sumIf args) :=
  .arity (.bind fun _ _ => .liftScalar (.finiteOrNull _))

theorem supplies_countIf : Supplies args (countIf args) := .arity (.bind fun _ _ => .scalar trivial)

/-! ### Arrays -/

/-- What stands at a position is one of the values, or else null. -/
theorem atPosition_of_all {P : Value → Prop} {values : List Value} (null : P .null)
    (h : ∀ v ∈ values, P v) (position : Int) : P ((atPosition? values position).getD .null) := by
  cases hv : atPosition? values position with
  | none => exact null
  | some v =>
    unfold atPosition? at hv
    split at hv
    · exact h v (List.mem_of_getElem? hv)
    · cases hv

theorem from_toItems (i : Nat) : ∀ v ∈ (args.getD i .null).toItems, v.From args := by
  intro v hv
  rw [List.getD_eq_getElem?_getD] at hv
  cases h : args[i]? with
  | none =>
    obtain rfl : v = .null := by simpa [h, Value.toItems] using hv
    exact .scalar trivial
  | some u =>
    have hu : u ∈ args := List.mem_of_getElem? h
    rw [h, Option.getD_some] at hv
    cases u with
    | array identity items => exact .item hu hv
    | _ =>
      obtain rfl := List.mem_singleton.mp hv
      exact .argument hu

theorem headD_eq_getD : args.headD .null = args.getD 0 .null := by
  cases args <;> rfl

theorem supplies_chooseOne {index : Value} {choices : List Value}
    (h : ∀ v ∈ choices, v.From args) : Supplies args (liftM (chooseOne index choices)) := by
  refine .lift ?_
  unfold chooseOne
  split
  · exact .bind fun _ _ =>
      .ite (.bind fun position _ => .pure (.value (atPosition_of_all (.scalar trivial) h position)))
        (.pure .null)
  · exact .pure .null

theorem supplies_chooseBy : Supplies args (chooseBy args) := by
  refine .arity ?_
  dsimp only
  split
  · intro v hv
    obtain ⟨i, _, rfl⟩ := List.mem_map.mp hv
    rw [List.getD_eq_getElem?_getD, List.getElem?_drop, ← List.getD_eq_getElem?_getD]
    exact from_getD _
  · exact supplies_chooseOne fun v hv => .argument (List.mem_of_mem_drop hv)

theorem isScalar_progression (start step : Number) (first count : Nat) :
    Gives (fun values => ∀ v ∈ values, Value.IsScalar v) (progression start step first count) := by
  induction count generalizing first with
  | zero => exact .pure (by simp)
  | succ count ih =>
    refine .bind fun _ _ => .bind fun _ _ => .bind fun rest hrest => .pure ?_
    simpa [Value.IsScalar] using ih (first + 1) rest hrest

theorem supplies_sequence : Supplies args (sequence args) :=
  .bind fun _ _ => .bind fun _ _ => .bind fun values h =>
    .answer (isScalar_progression _ _ _ _ values h)

theorem supplies_index : Supplies args (index args) := by
  refine .arity ?_
  rw [headD_eq_getD]
  split
  · rename_i items h
    have chosen (row : Int) :
        Supplies args (pure (.value ((atPosition? items (max 1 row)).getD .null))) := by
      refine .value (atPosition_of_all (.scalar trivial) ?_ _)
      have itemsFrom : ∀ v ∈ (args.getD 0 .null).toItems, v.From args := from_toItems 0
      rwa [h] at itemsFrom
    split
    · refine .bind fun isFinite _ => ?_
      cases isFinite
      · exact chosen 0
      · exact .bind fun row _ => chosen row
    · exact chosen 0
  · exact .scalar trivial

/-- What a search finds is an entry, or else the default. -/
theorem gives_findEntry {P : Value → Prop} {wanted default : Value}
    {pairs : List (Value × Option Value)} (hd : P default)
    (hp : ∀ pair ∈ pairs, ∀ v ∈ pair.2, P v) : Gives P (findEntry wanted default pairs) := by
  induction pairs with
  | nil => exact .pure hd
  | cons pair rest ih =>
    refine .bind fun found _ => .ite (.pure ?_) (ih fun q hq => hp q (by simp [hq]))
    split
    · exact hd
    · exact hd
    · exact hp pair (by simp) _ ‹_›

/-- The direction of a search does not change what is searched. -/
theorem mem_of_mem_reversed {α : Type} {a : α} {l : List α} {c : Prop} [Decidable c]
    (h : a ∈ if c then l.reverse else l) : a ∈ l := by
  split at h
  · exact List.mem_reverse.mp h
  · exact h

theorem supplies_lookup : Supplies args (lookup args) := by
  refine .arity (.bind fun entry h =>
    .value (gives_findEntry (P := fun v => v.From args) ?_ ?_ entry h))
  · exact from_getD 3
  · intro pair hpair v hv
    obtain ⟨i, _, rfl⟩ := List.mem_mapIdx.mp (mem_of_mem_reversed hpair)
    exact from_toItems 2 v (List.mem_of_getElem? hv)

/-! ### Mapping -/

/-- A mapping is made of the items of its first argument and the lambda that is its second. -/
theorem mapArguments_eq_ok {items : List Value} {f : Lambda}
    (h : mapArguments args = .ok (items, f)) :
    ∃ identity, args.getD 1 .null = .lambda identity f ∧ (args.getD 0 .null).toItems = items := by
  unfold mapArguments checkArity at h
  split at h
  · rw [pure_bind] at h
    split at h
    · cases h
      exact ⟨_, ‹_›, by rw [headD_eq_getD]⟩
    · cases h
  · cases h

theorem fault_mapArguments {fault : Fault} (h : mapArguments args = .error fault) :
    fault = .notALambda ∨ fault.OfLibrary := by
  unfold mapArguments checkArity at h
  split at h
  · rw [pure_bind] at h
    split at h <;> cases h
    exact .inl rfl
  · cases h
    exact .inr (.arity ..)

end Library

/-- The answer of a library function is made of scalars, arguments and items of arguments. -/
theorem Builtin.supplies_apply (builtin : Builtin) (args : List Value) :
    Supplies args (builtin.apply args) := by
  cases builtin with
  | choose => exact Library.supplies_choose
  | and => exact Library.supplies_and
  | or => exact Library.supplies_or
  | not => exact Library.supplies_not
  | isNumber => exact Library.supplies_isNumber
  | isBlank => exact Library.supplies_isBlank
  | minimum => exact Library.supplies_minimum
  | maximum => exact Library.supplies_maximum
  | absolute => exact Library.supplies_absolute
  | sum => exact Library.supplies_sum
  | average => exact Library.supplies_average
  | count => exact Library.supplies_count
  | round | roundUp | roundDown => exact Library.supplies_rounding _ _
  | squareRoot => exact Library.supplies_squareRoot
  | power => exact Library.supplies_power
  | logarithm => exact Library.supplies_logarithm
  | ceiling | floor => exact Library.supplies_multiple _ _
  | trim => exact Library.supplies_trim
  | concat | concatenate => exact Library.supplies_concat
  | ifError => exact Library.supplies_ifError
  | notNull => exact Library.supplies_notNull
  | coalesce => exact Library.supplies_coalesce
  | sumIf => exact Library.supplies_sumIf
  | countIf => exact Library.supplies_countIf
  | chooseBy => exact Library.supplies_chooseBy
  | sequence => exact Library.supplies_sequence
  | index => exact Library.supplies_index
  | lookup => exact Library.supplies_lookup

theorem Builtin.from_apply {builtin : Builtin} {args : List Value} {answer : Answer}
    (h : builtin.apply args = .ok answer) : ∀ v ∈ answer.values, v.From args := by
  have supplied := builtin.supplies_apply args
  rwa [h] at supplied

theorem Builtin.fault_apply {builtin : Builtin} {args : List Value} {fault : Fault}
    (h : builtin.apply args = .error fault) : fault.OfLibrary := by
  have supplied := builtin.supplies_apply args
  rwa [h] at supplied

end Quarterly.Formula
