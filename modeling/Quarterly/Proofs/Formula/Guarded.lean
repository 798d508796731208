import Quarterly.Proofs.Formula.Invariant
import Quarterly.Proofs.Number.Finite

/-!
# Functions that answer finite values

Most functions of the library answer finite values if their arguments are finite: they select what
they were given, they count, or they check what they have computed. The others scale, step or
multiply without a check, and their answers can overflow.
-/

namespace Quarterly

namespace Number

theorem isFinite_of_isFinite {n : Number} (h : n.isFinite = .ok true) : n.IsFinite := by
  cases n with
  | int i => trivial
  | double x =>
    change Except.ok x.isFinite = _ at h
    cases finite : x.isFinite with
    | true => exact finite
    | false =>
      rw [finite] at h
      cases h

/-- A choice between two numbers is made step by step, so it ends with one of the numbers. -/
theorem mem_of_foldl {choose : Number → Number → Number}
    (one : ∀ a b, choose a b = a ∨ choose a b = b) (ns : List Number) (n : Number) :
    ns.foldl choose n ∈ n :: ns := by
  induction ns generalizing n with
  | nil => simp
  | cons m ms ih =>
    rw [List.foldl_cons]
    have chosen := ih (choose n m)
    rcases one n m with same | same <;> rw [same] at chosen ⊢ <;> grind

theorem mem_of_least? {ns : List Number} {n : Number} (h : least? ns = some n) : n ∈ ns := by
  cases ns with
  | nil => cases h
  | cons m ms =>
    cases h
    exact mem_of_foldl (fun a b => by split <;> simp) ms m

theorem mem_of_greatest? {ns : List Number} {n : Number} (h : greatest? ns = some n) : n ∈ ns := by
  cases ns with
  | nil => cases h
  | cons m ms =>
    cases h
    exact mem_of_foldl (fun a b => by split <;> simp) ms m

end Number

namespace Formula

/-- No number in a value is infinite or NaN, items of arrays included. -/
inductive Value.IsFinite : Value → Prop where
  | null : IsFinite .null
  | bool {b} : IsFinite (.bool b)
  | text {s} : IsFinite (.text s)
  | number {n} (h : n.IsFinite) : IsFinite (.number n)
  | array {identity items} (h : ∀ v ∈ items, IsFinite v) : IsFinite (.array identity items)
  | lambda {identity f} : IsFinite (.lambda identity f)

/-- An answer that consists of finite values. -/
def Answer.IsFinite (answer : Answer) : Prop := ∀ v ∈ answer.values, v.IsFinite

namespace Value.IsFinite

variable {args : List Value} {v : Value}

theorem of_number {n : Number} (h : (Value.number n).IsFinite) : n.IsFinite := by
  cases h
  assumption

theorem items {identity : Nat} {items : List Value} (h : (Value.array identity items).IsFinite) :
    ∀ v ∈ items, v.IsFinite := by
  cases h
  assumption

theorem toItems (h : v.IsFinite) : ∀ u ∈ v.toItems, u.IsFinite := by
  cases v with
  | array identity items => exact h.items
  | _ => simpa [Value.toItems] using h

theorem getD (finite : ∀ v ∈ args, v.IsFinite) (i : Nat) : (args.getD i .null).IsFinite := by
  rw [List.getD_eq_getElem?_getD]
  cases h : args[i]? with
  | none => exact .null
  | some v => exact finite v (List.mem_of_getElem? h)

theorem headD (finite : ∀ v ∈ args, v.IsFinite) : (args.headD .null).IsFinite := by
  rw [Library.headD_eq_getD]
  exact getD finite 0

theorem answer (h : v.IsFinite) : (Answer.value v).IsFinite := by
  intro u hu
  obtain rfl : u = v := by simpa [Answer.values] using hu
  exact h

theorem ofFinite (n : Number) : (Value.ofFinite n).IsFinite := by
  cases n with
  | int i => exact .number trivial
  | double x =>
    change (if x.isFinite then Value.number (.double x) else .null).IsFinite
    split
    · rename_i finite
      exact .number finite
    · exact .null

end Value.IsFinite

/-! ### Operators -/

theorem isFinite_arithmetic {op : ArithmeticOp} {left right v : Value}
    (h : arithmetic op left right = .ok v) : v.IsFinite := by
  rcases eq_of_arithmetic h with rfl | ⟨n, rfl⟩
  · exact .null
  · exact .ofFinite n

theorem isFinite_negate {v : Value} (finite : v.IsFinite) : (negate v).IsFinite := by
  cases v with
  | number n => exact .number (Number.isFinite_neg finite.of_number)
  | _ => exact .null

theorem isFinite_percent {n : Number} {v : Value} (finite : n.IsFinite) (h : percent n = .ok v) :
    v.IsFinite := by
  obtain ⟨x, hq, rfl⟩ := eq_of_percent h
  exact .number (Number.isFinite_div_hundred finite hq)

/-! ### Functions -/

namespace Gives

variable {ε : Type}

theorem finite {v : Value} (h : v.IsFinite) :
    Gives Answer.IsFinite (.ok (.value v) : Except ε Answer) :=
  pure h.answer

theorem checked (n : Number) : Gives Answer.IsFinite (Formula.finiteOrNull n) := by
  refine bind fun isFinite h => ?_
  cases isFinite with
  | true => exact finite (.number (Number.isFinite_of_isFinite h))
  | false => exact finite .null

end Gives

theorem number_of_number? {v : Value} :
    Gives (fun n? : Option Number => ∀ n ∈ n?, v = .number n) v.number? := by
  cases v with
  | number m => exact .bind fun isNaN _ => .pure (by cases isNaN <;> simp)
  | _ => exact .pure (by simp)

theorem mem_numbersOf {args : List Value} :
    Gives (fun ns => ∀ n ∈ ns, Value.number n ∈ args) (numbersOf args) := by
  induction args with
  | nil => exact .pure (by simp)
  | cons v rest ih =>
    refine .bind fun n? first => .bind fun others later => .pure fun n hn => ?_
    rcases List.mem_append.mp hn with own | other
    · rw [number_of_number? n? first n (by simpa using own)]
      exact List.mem_cons_self
    · exact List.mem_cons_of_mem _ (ih others later n other)

/-- A power of finite numbers is checked. -/
theorem isFinite_power? {base exponent : Number} (finite : base.IsFinite)
    (finite' : exponent.IsFinite) :
    Gives (fun power => ∀ x ∈ power, x.isFinite = true) (Number.power? base exponent) := by
  refine .bind fun b hb => .bind fun e he => .pure fun x power => ?_
  unfold Quarterly.power? at power
  simp only [Number.isFinite_toDouble finite hb, Number.isFinite_toDouble finite' he,
    Bool.true_and] at power
  split at power
  · cases power
  · rename_i notInfinite
    cases power
    simpa using notInfinite

namespace Library

variable {args : List Value}

/-! The answer is a truth value, a text or a count. -/

theorem isFinite_and : Gives Answer.IsFinite (and args) := .form fun _ _ => .finite .bool

theorem isFinite_or : Gives Answer.IsFinite (or args) := .form fun _ _ => .finite .bool

theorem isFinite_not : Gives Answer.IsFinite (not args) :=
  .arity (.form fun _ _ => .finite .bool)

theorem isFinite_isNumber : Gives Answer.IsFinite (isNumber args) :=
  .arity (.form fun _ _ => .finite .bool)

theorem isFinite_isBlank : Gives Answer.IsFinite (isBlank args) := .arity (.finite .bool)

theorem isFinite_trim : Gives Answer.IsFinite (trim args) := .arity (.finite .text)

theorem isFinite_concat : Gives Answer.IsFinite (concat args) := .finite .text

theorem isFinite_count : Gives Answer.IsFinite (count args) := .finite (.number trivial)

theorem isFinite_countIf : Gives Answer.IsFinite (countIf args) :=
  .arity (.form fun _ _ => .finite (.number trivial))

/-! The answer is checked. -/

theorem isFinite_sum : Gives Answer.IsFinite (sum args) :=
  .form fun _ _ => .form fun n _ => .lift (.checked n)

theorem isFinite_average : Gives Answer.IsFinite (average args) := by
  refine .form fun ns _ => ?_
  split
  · exact .finite .null
  · exact .form fun _ _ => .form fun x _ => .lift (.checked (.double x))

theorem isFinite_sumIf : Gives Answer.IsFinite (sumIf args) :=
  .arity (.form fun n _ => .lift (.checked n))

section

variable (finite : ∀ v ∈ args, v.IsFinite)

include finite

theorem isFinite_power : Gives Answer.IsFinite (power args) := by
  refine .arity (.pure ?_)
  split
  · rename_i base exponent
    have power := isFinite_power? (finite (.number base) (by simp)).of_number
      (finite (.number exponent) (by simp)).of_number
    cases h : Number.power? base exponent with
    | error cause => exact Value.IsFinite.null.answer
    | ok power? =>
      cases power? with
      | none => exact Value.IsFinite.null.answer
      | some x => exact (Value.IsFinite.number (n := .double x) (power _ h x rfl)).answer
  · exact Value.IsFinite.null.answer

/-! The answer is an argument, or its absolute value or root. -/

theorem isFinite_choose : Gives Answer.IsFinite (choose args) := by
  refine .arity (.form fun isTrue _ => ?_)
  split
  · exact .finite .text
  · exact .finite (.getD finite _)

theorem isFinite_minimum : Gives Answer.IsFinite (minimum args) := by
  refine .form fun ns hns => ?_
  cases least : Number.least? ns with
  | none => exact .finite .null
  | some n => exact .finite (finite _ (mem_numbersOf ns hns n (Number.mem_of_least? least)))

theorem isFinite_maximum : Gives Answer.IsFinite (maximum args) := by
  refine .form fun ns hns => ?_
  cases greatest : Number.greatest? ns with
  | none => exact .finite .null
  | some n => exact .finite (finite _ (mem_numbersOf ns hns n (Number.mem_of_greatest? greatest)))

theorem isFinite_absolute : Gives Answer.IsFinite (absolute args) := by
  have first := Value.IsFinite.headD finite
  refine .arity (.pure ?_)
  split
  · rename_i n h
    rw [h] at first
    exact (Value.IsFinite.number (Number.isFinite_abs first.of_number)).answer
  · exact Value.IsFinite.null.answer

theorem isFinite_squareRoot : Gives Answer.IsFinite (squareRoot args) := by
  have first := Value.IsFinite.headD finite
  refine .arity ?_
  split
  · rename_i n h
    rw [h] at first
    split
    · exact .finite .null
    · rename_i notLess
      exact .form fun x root => .finite (.number
        (Number.isFinite_sqrt first.of_number (Bool.eq_false_of_not_eq_true notLess) root))
  · exact .finite .null

theorem isFinite_ifError : Gives Answer.IsFinite (ifError args) := by
  have chosen (isTrouble : Bool) : Gives Answer.IsFinite (pure (.value
      (if isTrouble then args.getD 1 .null else args.headD .null)) : Except Fault Answer) := by
    cases isTrouble
    · exact .finite (.headD finite)
    · exact .finite (.getD finite 1)
  refine .arity ?_
  dsimp only
  split
  · exact chosen true
  · exact .form fun isNaN _ => chosen isNaN
  · exact chosen false

theorem isFinite_notNull : Gives Answer.IsFinite (notNull args) := by
  refine .arity (.finite ?_)
  split
  · exact .getD finite 1
  · exact .headD finite

theorem isFinite_coalesce : Gives Answer.IsFinite (coalesce args) := by
  refine .arity (.finite ?_)
  cases h : args.find? fun v => !v.isNull with
  | none => exact .null
  | some v => exact finite v (List.mem_of_find?_eq_some h)

/-! The answer is made of items of the arguments. -/

theorem isFinite_chooseBy : Gives Answer.IsFinite (chooseBy args) := by
  have choices : ∀ v ∈ args.drop 1, v.IsFinite := fun v hv => finite v (List.mem_of_mem_drop hv)
  refine .arity ?_
  dsimp only
  split
  · refine .pure fun v hv => ?_
    obtain ⟨i, _, rfl⟩ := List.mem_map.mp hv
    exact .getD choices i
  · refine .lift ?_
    unfold chooseOne
    split
    · exact .bind fun _ _ => .ite
        (.bind fun position _ => .finite (atPosition_of_all .null choices position)) (.finite .null)
    · exact .finite .null

theorem isFinite_index : Gives Answer.IsFinite (index args) := by
  have first := Value.IsFinite.headD finite
  refine .arity ?_
  split
  · rename_i identity items h
    rw [h] at first
    have chosen (row : Int) : Gives Answer.IsFinite (pure (.value
        ((atPosition? items (max 1 row)).getD .null)) : Except Fault Answer) :=
      .finite (atPosition_of_all .null first.items _)
    split
    · refine .form fun isFinite _ => ?_
      cases isFinite
      · exact chosen 0
      · exact .form fun row _ => chosen row
    · exact chosen 0
  · exact .finite .null

theorem isFinite_lookup : Gives Answer.IsFinite (lookup args) := by
  refine .arity (.form fun entry h => .finite (gives_findEntry (.getD finite 3) ?_ entry h))
  intro pair hpair v hv
  obtain ⟨i, _, rfl⟩ := List.mem_mapIdx.mp (mem_of_mem_reversed hpair)
  exact (Value.IsFinite.getD finite 2).toItems v (List.mem_of_getElem? hv)

end

end Library

namespace Builtin

/-- The functions that scale, step or multiply and do not check what they answer. -/
def unguarded : List Builtin :=
  [round, roundUp, roundDown, logarithm, ceiling, floor, sequence]

/-- The other functions answer finite values for finite arguments. -/
theorem isFinite_apply {builtin : Builtin} (guarded : builtin ∉ unguarded) {args : List Value}
    (finite : ∀ v ∈ args, v.IsFinite) : Gives Answer.IsFinite (builtin.apply args) := by
  cases builtin with
  | choose => exact Library.isFinite_choose finite
  | and => exact Library.isFinite_and
  | or => exact Library.isFinite_or
  | not => exact Library.isFinite_not
  | isNumber => exact Library.isFinite_isNumber
  | isBlank => exact Library.isFinite_isBlank
  | minimum => exact Library.isFinite_minimum finite
  | maximum => exact Library.isFinite_maximum finite
  | absolute => exact Library.isFinite_absolute finite
  | sum => exact Library.isFinite_sum
  | average => exact Library.isFinite_average
  | count => exact Library.isFinite_count
  | squareRoot => exact Library.isFinite_squareRoot finite
  | power => exact Library.isFinite_power finite
  | trim => exact Library.isFinite_trim
  | concat | concatenate => exact Library.isFinite_concat
  | ifError => exact Library.isFinite_ifError finite
  | notNull => exact Library.isFinite_notNull finite
  | coalesce => exact Library.isFinite_coalesce finite
  | sumIf => exact Library.isFinite_sumIf
  | countIf => exact Library.isFinite_countIf
  | chooseBy => exact Library.isFinite_chooseBy finite
  | index => exact Library.isFinite_index finite
  | lookup => exact Library.isFinite_lookup finite
  | _ => exact absurd (by decide) guarded

end Builtin

end Formula

end Quarterly
