import Quarterly.Proofs.Formula.Application
import Quarterly.Proofs.Formula.Arity
import Quarterly.Proofs.Formula.Guarded
import Quarterly.Proofs.Formula.NumericFaults

/-!
# Calls that fault

Null stands for whatever numbers have no result, so that a formula can intercept it. Which calls of
the library fault nevertheless, although they are given a number of arguments that the function
takes, is said here for every function, and so is which applications of an operator fault. The cause
is always an integer beyond the range of the doubles; only a logarithm may fail in another way, if
the logarithm of its base is zero. A fallback cannot help there: it is a function like the others
and called with values only.
-/

namespace Quarterly.Formula

namespace Library

variable {args : List Value}

/-! ### Conditions -/

theorem faults_allTrue (args : List Value) :
    FaultsWhen NumericFault.IsOverflow (Reaches (·.truth = .ok true) Value.Oversized args)
      (allTrue args) := by
  induction args with
  | nil => exact .pure Reaches.not_nil
  | cons v rest ih =>
    refine v.faults_truth.bind (fun large => Reaches.cons_iff.mpr (.inl large))
      fun truth hv small => ?_
    cases truth with
    | true => exact ih.congr (by simp [Reaches.cons_iff, small, hv])
    | false => exact .pure (by simp [Reaches.cons_iff, small, hv])

theorem faults_anyTrue (args : List Value) :
    FaultsWhen NumericFault.IsOverflow (Reaches (·.truth = .ok false) Value.Oversized args)
      (anyTrue args) := by
  induction args with
  | nil => exact .pure Reaches.not_nil
  | cons v rest ih =>
    refine v.faults_truth.bind (fun large => Reaches.cons_iff.mpr (.inl large))
      fun truth hv small => ?_
    cases truth with
    | true => exact .pure (by simp [Reaches.cons_iff, small, hv])
    | false => exact ih.congr (by simp [Reaches.cons_iff, small, hv])

theorem faults_choose (accepted : (Arity.atLeast 2).accepts args.length = true) :
    FaultsWhen Fault.IsOverflow (args.headD .null).Oversized (choose args) :=
  .checked accepted (Value.faults_truth _).formed

theorem faults_ifError (accepted : (Arity.exactly 2).accepts args.length = true) :
    FaultsWhen Fault.IsOverflow (args.headD .null).Oversized (ifError args) := by
  refine .checked accepted ?_
  dsimp only
  generalize args.headD .null = v
  cases v with
  | number n => exact n.faults_isNaN.formed
  | _ => exact .pure id

/-! ### Aggregates -/

theorem faults_finiteOrNull (n : Number) :
    FaultsWhen NumericFault.IsOverflow n.Oversized (finiteOrNull n) :=
  n.faults_isFinite.map

/-- Take the numbers among the arguments first. -/
theorem faults_ofNumbers {β : Type} {f : List Number → Except Fault β} {p : Prop}
    (h : (∀ n ∈ args.filterMap Value.summand?, ¬ n.Oversized) →
      FaultsWhen Fault.IsOverflow p (f (args.filterMap Value.summand?))) :
    FaultsWhen Fault.IsOverflow ((∃ v ∈ args, v.Oversized) ∨ p)
      ((liftM (numbersOf args) : Except Fault (List Number)) >>= f) := by
  refine (faults_numbersOf args).form .inl fun ns hns small => ?_
  have each : ∀ v ∈ args, ¬ v.Oversized := by simpa using small
  rw [numbersOf_of_small each] at hns
  cases hns
  exact (h (small_summands each)).congr (or_iff_right small)

theorem faults_minimum (args : List Value) :
    FaultsWhen Fault.IsOverflow (∃ v ∈ args, v.Oversized) (minimum args) :=
  (faults_numbersOf args).formed

theorem faults_maximum (args : List Value) :
    FaultsWhen Fault.IsOverflow (∃ v ∈ args, v.Oversized) (maximum args) :=
  (faults_numbersOf args).formed

/-- Add some numbers and check the sum: even where no double is met, the check needs one. -/
theorem faults_checkedSum {ns : List Number} (small : ∀ n ∈ ns, ¬ n.Oversized) :
    FaultsWhen Fault.IsOverflow (Number.int (Number.leadingSum ns)).Oversized
      (do finiteOrNull (← Number.sum ns) : Except Fault Answer) := by
  refine (Number.faults_sum small).form (·.2) fun total h _ => ?_
  exact ((faults_finiteOrNull total).congr (Number.oversized_sum_iff small h).symm).lift

theorem faults_sum (args : List Value) :
    FaultsWhen Fault.IsOverflow (SumOverflows args) (sum args) :=
  faults_ofNumbers faults_checkedSum

/-- The mean of some numbers cannot be formed. If there are doubles among them, the integers in
front of the first one add up to a number without a double, or as many numbers as that are
given; if there are none, the quotient is beyond the doubles. -/
def MeanOverflows (ns : List Number) : Prop :=
  (∃ x, .double x ∈ ns) ∧
      ((Number.int (Number.leadingSum ns)).Oversized ∨ (Number.int ns.length).Oversized) ∨
    (∀ x, .double x ∉ ns) ∧ ns ≠ [] ∧
      (Number.int (Number.leadingSum ns)).QuotientOverflows (.int ns.length)

theorem faults_mean {ns : List Number} (small : ∀ n ∈ ns, ¬ n.Oversized) (notEmpty : ns ≠ []) :
    FaultsWhen Fault.IsOverflow (MeanOverflows ns) (do
      finiteOrNull (.double (← (← Number.sum ns).div (.int ns.length))) : Except Fault Answer) := by
  have nonzero : (Number.int ns.length).equal (.int 0) = false := by
    simp [Number.equal, Number.order, notEmpty]
  refine (Number.faults_sum small).form (fun both => .inl ⟨both.1, .inl both.2⟩)
    fun total h fits => ?_
  have quotient : FaultsWhen Fault.IsOverflow (total.QuotientOverflows (.int ns.length)) (do
      finiteOrNull (.double (← total.div (.int ns.length))) : Except Fault Answer) :=
    (Number.faults_div nonzero).form id fun x _ apart =>
      ((faults_finiteOrNull (.double x)).congr (iff_of_false apart id)).lift
  refine quotient.congr ?_
  rcases Number.sum_kind small h with ⟨mixed, y, rfl⟩ | ⟨integers, rfl⟩
  · simp [MeanOverflows, mixed, not_and.mp fits mixed, Number.QuotientOverflows, Number.Clashes]
  · simp [MeanOverflows, integers, notEmpty]

theorem faults_average (args : List Value) :
    FaultsWhen Fault.IsOverflow
      ((∃ v ∈ args, v.Oversized) ∨ MeanOverflows (args.filterMap Value.summand?))
      (average args) := by
  refine faults_ofNumbers fun small => ?_
  generalize args.filterMap Value.summand? = ns at small
  cases ns with
  | nil => exact .pure (by simp [MeanOverflows])
  | cons n rest => exact faults_mean small (List.cons_ne_nil n rest)

/-! ### Aggregates under a criterion -/

/-- The values whose candidates satisfy a criterion. -/
def matched (criterion : Value) (pairs : List (Value × Value)) : List Value :=
  (pairs.filter fun pair => (pair.1.matchesCriterion criterion).toOption = some true).map (·.2)

section

variable {criterion : Value}

theorem matched_cons {candidate value : Value} {rest : List (Value × Value)} {isMatch : Bool}
    (h : candidate.matchesCriterion criterion = .ok isMatch) :
    matched criterion ((candidate, value) :: rest) =
      if isMatch then value :: matched criterion rest else matched criterion rest := by
  unfold matched
  cases isMatch <;> simp [h, Except.toOption]

/-- Where no candidate clashes and every value that counts has a double, the sum is that of the
numbers that count. -/
theorem sumMatching_of_apart {pairs : List (Value × Value)}
    (apart : ∀ pair ∈ pairs, ¬ pair.1.ClashesWith criterion)
    (small : ∀ v ∈ matched criterion pairs, ¬ v.Oversized) (total : Number) :
    sumMatching criterion total pairs =
      ((matched criterion pairs).filterMap Value.summand?).foldlM Number.add total := by
  induction pairs generalizing total with
  | nil => rfl
  | cons pair rest ih =>
    obtain ⟨candidate, value⟩ := pair
    obtain ⟨first, others⟩ := List.forall_mem_cons.mp apart
    obtain ⟨isMatch, h⟩ := (Value.faults_matchesCriterion candidate criterion).exists_ok first
    rw [matched_cons h] at small ⊢
    rw [sumMatching, h]
    cases isMatch with
    | false => exact ih others small total
    | true =>
      obtain ⟨here, there⟩ := List.forall_mem_cons.mp small
      change (value.number? >>= fun n? => _) = _
      rw [Value.number?_eq here, if_pos rfl, List.filterMap_cons]
      cases value.summand? with
      | none => exact ih others there total
      | some n =>
        change (total.add n >>= fun sum => sumMatching criterion sum rest) = _
        rw [List.foldlM_cons]
        exact bind_congr fun sum => ih others there sum

/-- If a candidate clashes or a value that counts has no double, then the sum is not finished,
whatever the numbers add up to. -/
theorem sumMatching_error {pairs : List (Value × Value)}
    (trouble : (∃ pair ∈ pairs, pair.1.ClashesWith criterion) ∨
      ∃ v ∈ matched criterion pairs, v.Oversized) (total : Number) :
    ∃ cause : NumericFault, cause.IsOverflow ∧
      sumMatching criterion total pairs = .error cause := by
  induction pairs generalizing total with
  | nil => simp [matched] at trouble
  | cons pair rest ih =>
    obtain ⟨candidate, value⟩ := pair
    have first := Value.faults_matchesCriterion candidate criterion
    rw [sumMatching]
    cases hm : candidate.matchesCriterion criterion with
    | error cause => exact ⟨cause, first.cause hm, rfl⟩
    | ok isMatch =>
      rw [hm] at first
      rw [matched_cons hm] at trouble
      have apart : ¬ candidate.ClashesWith criterion := first
      cases isMatch with
      | false => exact ih (by simpa [apart] using trouble) total
      | true =>
        have number := value.faults_number?
        change ∃ cause : NumericFault, cause.IsOverflow ∧ (value.number? >>= fun n? => _) = _
        cases hn : value.number? with
        | error cause => exact ⟨cause, number.cause hn, rfl⟩
        | ok n? =>
          rw [hn] at number
          have small : ¬ value.Oversized := number
          have later := ih (by simpa [apart, small] using trouble)
          cases n? with
          | none => exact later total
          | some n =>
            change ∃ cause : NumericFault, cause.IsOverflow ∧
              (total.add n >>= fun sum => sumMatching criterion sum rest) = _
            cases hs : total.add n with
            | error cause => exact ⟨cause, (total.faults_add n).cause hs, rfl⟩
            | ok sum => exact later sum

end

/-- The places that a conditional sum looks at: a candidate and the value that counts for it. -/
def summedPairs (args : List Value) : List (Value × Value) :=
  let range := (args.headD .null).toItems
  range.zip (match args with
    | [_, _, s] => s.toItems
    | _ => range)

/-- A candidate clashes with the criterion, or the values that count cannot be added. -/
def SumIfOverflows (args : List Value) : Prop :=
  let criterion := args.getD 1 .null
  (∃ pair ∈ summedPairs args, pair.1.ClashesWith criterion) ∨
    SumOverflows (matched criterion (summedPairs args))

theorem faults_sumIf (accepted : (Arity.between 2 3).accepts args.length = true) :
    FaultsWhen Fault.IsOverflow (SumIfOverflows args) (sumIf args) := by
  refine .checked accepted ?_
  change FaultsWhen _ _ ((liftM (sumMatching (args.getD 1 .null) (.int 0) (summedPairs args)) :
    Except Fault Number) >>= fun total => liftM (finiteOrNull total))
  unfold SumIfOverflows
  dsimp only
  generalize args.getD 1 .null = criterion
  generalize summedPairs args = pairs
  by_cases trouble : (∃ pair ∈ pairs, pair.1.ClashesWith criterion) ∨
      ∃ v ∈ matched criterion pairs, v.Oversized
  · obtain ⟨cause, overflow, h⟩ := sumMatching_error trouble (.int 0)
    rw [h]
    exact .throw ⟨cause, rfl, overflow⟩ (trouble.imp id .inl)
  · obtain ⟨apart, small⟩ := not_or.mp trouble
    have each : ∀ v ∈ matched criterion pairs, ¬ v.Oversized := by simpa using small
    rw [sumMatching_of_apart (by simpa using apart) each]
    rw [SumOverflows, or_iff_right apart, or_iff_right small]
    exact faults_checkedSum (small_summands each)

theorem faults_countMatching (criterion : Value) (items : List Value) :
    FaultsWhen NumericFault.IsOverflow (∃ v ∈ items, v.ClashesWith criterion)
      (countMatching criterion items) := by
  induction items with
  | nil => exact .pure (by simp)
  | cons v rest ih =>
    refine (v.faults_matchesCriterion criterion).bind (fun clash => ⟨v, List.mem_cons_self, clash⟩)
      fun isMatch _ apart => ?_
    refine ih.bind (fun ⟨u, hu, clash⟩ => ⟨u, List.mem_cons_of_mem v hu, clash⟩)
      fun _ _ others => ?_
    exact .pure (by simpa [apart] using others)

theorem faults_countIf (accepted : (Arity.exactly 2).accepts args.length = true) :
    FaultsWhen Fault.IsOverflow
      (∃ v ∈ (args.headD .null).toItems, v.ClashesWith (args.getD 1 .null)) (countIf args) :=
  .checked accepted (faults_countMatching _ _).formed

/-! ### Roots and logarithms -/

/-- An integer without a double that is not below zero. -/
def LacksRoot : Value → Prop
  | .number n => n.less (.int 0) = false ∧ n.Oversized
  | _ => False

theorem faults_squareRoot (accepted : (Arity.exactly 1).accepts args.length = true) :
    FaultsWhen Fault.IsOverflow (LacksRoot (args.headD .null)) (squareRoot args) := by
  refine .checked accepted ?_
  generalize args.headD .null = v
  cases v with
  | number n =>
    refine .ite (fun negative => .pure (by simp [LacksRoot, negative])) fun nonnegative => ?_
    exact n.faults_sqrt.formed.congr (by simp [LacksRoot, nonnegative])
  | _ => exact .pure id

/-- The base of a logarithm. -/
def logarithmBase (args : List Value) : Number :=
  match args.getD 1 .null with
  | .number b => b
  | _ => .int 10

/-- A number and a base are in the domain of the logarithm, but the logarithm of the base is zero.
Of the logarithms of doubles nothing is known that would rule this out. -/
def LacksQuotient (base : Number) : Value → Prop
  | .number n => (n.atMost (.int 0) || base.atMost (.int 0) || base.equal (.int 1)) = false ∧
      (base.log == 0) = true
  | _ => False

theorem faults_logarithm (accepted : (Arity.between 1 2).accepts args.length = true) :
    FaultsWhen (· = .numeric .zeroDivisor) (LacksQuotient (logarithmBase args) (args.headD .null))
      (logarithm args) := by
  refine .checked accepted ?_
  generalize args.headD .null = v
  cases v with
  | number n =>
    change FaultsWhen _ _ (if (n.atMost (.int 0) || (logarithmBase args).atMost (.int 0) ||
        (logarithmBase args).equal (.int 1)) = true then .ok Answer.null else
      (liftM (if (logarithmBase args).log == 0 then throw .zeroDivisor
        else pure (n.log / (logarithmBase args).log) : Except NumericFault Float) :
          Except Fault Float) >>= fun x => .ok (Answer.double x))
    generalize logarithmBase args = base
    refine .ite (fun outside => .pure (by simp [LacksQuotient, outside])) fun inside => ?_
    have inside := Bool.eq_false_of_not_eq_true inside
    cases zero : base.log == 0 with
    | true => exact .throw rfl ⟨inside, zero⟩
    | false => exact .pure (by simp [LacksQuotient, zero])
  | _ => exact .pure id

/-! ### Arrays -/

theorem faults_chooseOne (index : Value) (choices : List Value) :
    FaultsWhen NumericFault.IsOverflow index.Oversized (chooseOne index choices) := by
  cases index with
  | number n =>
    refine n.faults_isFinite.bind id fun isFinite h small => ?_
    cases isFinite with
    | false => exact .pure small
    | true =>
      obtain ⟨i, hi⟩ := Number.exists_roundHalfUp small (Number.isFinite_of_isFinite h)
      rw [if_pos rfl, hi]
      exact .pure small
  | _ => exact .pure id

theorem faults_chooseBy (accepted : (Arity.atLeast 2).accepts args.length = true) :
    FaultsWhen Fault.IsOverflow (args.headD .null).Oversized (chooseBy args) := by
  refine .checked accepted ?_
  dsimp only
  generalize args.headD .null = v
  cases v with
  | array _ _ => exact .pure id
  | _ => exact (faults_chooseOne _ _).lift

theorem faults_index (accepted : (Arity.atLeast 2).accepts args.length = true) :
    FaultsWhen Fault.IsOverflow
      ((∃ identity items, args.headD .null = .array identity items) ∧ (args.getD 1 .null).Oversized)
      (index args) := by
  refine .checked accepted ?_
  generalize args.headD .null = v
  generalize args.getD 1 .null = position
  cases v with
  | array identity items =>
    refine FaultsWhen.congr ?_ (and_iff_right ⟨identity, items, rfl⟩)
    cases position with
    | number n =>
      refine n.faults_isFinite.form id fun isFinite h small => ?_
      cases isFinite with
      | false => exact .pure small
      | true =>
        obtain ⟨i, hi⟩ := Number.exists_roundHalfUp small (Number.isFinite_of_isFinite h)
        rw [if_pos rfl, hi]
        exact .pure small
    | _ => exact .pure id
  | _ => exact .pure (by simp)

theorem faults_countArgument (v : Value) (default : Nat) :
    FaultsWhen NumericFault.IsOverflow v.Oversized (countArgument v default) := by
  cases v with
  | number n =>
    refine n.faults_isFinite.bind id fun isFinite h small => ?_
    cases isFinite with
    | false => exact .pure small
    | true =>
      obtain ⟨i, hi⟩ := Number.exists_floor (Number.isFinite_of_isFinite h)
      rw [if_pos rfl, hi]
      exact .pure small
  | _ => exact .pure id

/-- A number of a progression cannot be formed: a double is met by an integer without a double, the
start, the place of the number or that many steps. -/
def TermOverflows : Number → Number → Nat → Prop
  | .int s, .double _, i => (Number.int s).Oversized ∨ (Number.int i).Oversized
  | .double _, .int k, i => (Number.int (i * k)).Oversized
  | .double _, .double _, i => (Number.int i).Oversized
  | .int _, .int _, _ => False

theorem faults_term (start step : Number) (i : Nat) :
    FaultsWhen NumericFault.IsOverflow (TermOverflows start step i)
      ((Number.int i).mul step >>= start.add) := by
  cases step with
  | int k =>
    cases start with
    | int s => exact .pure id
    | double x => exact (Number.double x).faults_add (.int (i * k))
  | double y =>
    refine ((Number.int i).faults_mul (.double y)).bind ?_ fun n h small => ?_
    · cases start with
      | int s => exact .inr
      | double x => exact id
    · obtain ⟨z, rfl⟩ := Number.exists_double_of_lift h
      refine (start.faults_add (.double z)).congr ?_
      cases start with
      | int s => exact or_iff_left small
      | double x => exact iff_of_false small id

theorem faults_progression (start step : Number) (first count : Nat) :
    FaultsWhen NumericFault.IsOverflow
      (∃ i, first ≤ i ∧ i < first + count ∧ TermOverflows start step i)
      (progression start step first count) := by
  induction count generalizing first with
  | zero => exact .pure (by omega)
  | succ count ih =>
    have terms : progression start step first (count + 1) =
        ((Number.int first).mul step >>= start.add) >>= fun n =>
          progression start step (first + 1) count >>= fun rest => .ok (.number n :: rest) := by
      rw [bind_assoc]
      rfl
    rw [terms]
    refine (faults_term start step first).bind
      (fun overflows => ⟨first, by omega, by omega, overflows⟩) fun n _ here => ?_
    refine (ih (first + 1)).bind (fun ⟨i, _, _, overflows⟩ => ⟨i, by omega, by omega, overflows⟩)
      fun rest _ later => .pure ?_
    rintro ⟨i, low, high, overflows⟩
    rcases Nat.eq_or_lt_of_le low with rfl | beyond
    · exact here overflows
    · exact later ⟨i, beyond, by omega, overflows⟩

/-- The number of rows or of columns has no double, or one of the terms cannot be formed. -/
def SequenceOverflows (args : List Value) : Prop :=
  (args.getD 0 .null).Oversized ∨ (args.getD 1 .null).Oversized ∨
    ∃ rows columns i, countArgument (args.getD 0 .null) 0 = .ok rows ∧
      countArgument (args.getD 1 .null) 1 = .ok columns ∧ i < rows * columns ∧
        TermOverflows (stepArgument (args.getD 2 .null)) (stepArgument (args.getD 3 .null)) i

theorem faults_sequence (args : List Value) :
    FaultsWhen Fault.IsOverflow (SequenceOverflows args) (sequence args) := by
  refine (faults_countArgument _ 0).form .inl fun rows hr small => ?_
  refine (faults_countArgument _ 1).form (.inr ∘ .inl) fun columns hc small' => ?_
  refine (faults_progression _ _ 0 (rows * columns)).formed.congr ?_
  rw [SequenceOverflows, or_iff_right small, or_iff_right small', hr, hc]
  simp

theorem faults_findEntry (wanted default : Value) (pairs : List (Value × Option Value)) :
    FaultsWhen NumericFault.IsOverflow
      (Reaches (fun key => matchesKey wanted key = .ok false) wanted.Clashes (pairs.map (·.1)))
      (findEntry wanted default pairs) := by
  induction pairs with
  | nil => exact .pure Reaches.not_nil
  | cons pair rest ih =>
    obtain ⟨key, entry⟩ := pair
    have compared : FaultsWhen NumericFault.IsOverflow (wanted.Clashes key)
        (matchesKey wanted key) := by
      cases wanted with
      | number a =>
        cases key with
        | number b => exact (a.faults_sub b).map
        | _ => exact .pure id
      | _ => exact .pure id
    rw [List.map_cons]
    refine compared.bind (fun clash => Reaches.cons_iff.mpr (.inl clash)) fun isMatch h apart => ?_
    cases isMatch with
    | true => exact .pure (by simp [Reaches.cons_iff, apart, h])
    | false => exact ih.congr (by simp [Reaches.cons_iff, apart, h])

/-- The keys in the order in which a look-up goes through them. -/
def searchedKeys (args : List Value) : List Value :=
  let keys := (args.getD 1 .null).toItems
  match args.getD 5 .null with
  | .number n => if n.equal (.int (-1)) then keys.reverse else keys
  | _ => keys

theorem faults_lookup (accepted : (Arity.atLeast 3).accepts args.length = true) :
    FaultsWhen Fault.IsOverflow
      (Reaches (fun key => matchesKey (args.headD .null) key = .ok false) (args.headD .null).Clashes
        (searchedKeys args))
      (lookup args) := by
  refine .checked accepted ((faults_findEntry _ _ _).formed.congr ?_)
  have keysOf (keys entries : List Value) :
      (keys.mapIdx fun i key => (key, entries[i]?)).map (·.1) = keys := by
    apply List.ext_getElem <;> simp
  unfold searchedKeys
  generalize args.getD 5 .null = direction
  cases direction with
  | number n =>
    dsimp only
    by_cases backwards : n.equal (.int (-1)) = true
    · rw [if_pos backwards, if_pos backwards, List.map_reverse, keysOf]
    · rw [if_neg backwards, if_neg backwards, keysOf]
  | _ => rw [if_neg Bool.false_ne_true, keysOf]

end Library

/-! ### Numbers of arguments -/

theorem Arity.accepts_any (count : Nat) : (Arity.atLeast 0).accepts count = true := by
  simp [Arity.accepts, Arity.atLeast]

theorem refused {α : Type} {function : String} {accepted : Arity} {count : Nat}
    {f : Unit → Except Fault α} (h : accepted.accepts count = false) :
    (checkArity function accepted count >>= f) = .error (.arity function accepted count) := by
  unfold checkArity
  rw [h]
  rfl

namespace Builtin

/-- The numbers of arguments that a function takes. -/
def arity : Builtin → Arity
  | choose | chooseBy | index => .atLeast 2
  | not | isNumber | isBlank | absolute | squareRoot | trim => .exactly 1
  | round | roundUp | roundDown | power | ifError | countIf => .exactly 2
  | logarithm | ceiling | floor => .between 1 2
  | notNull | coalesce => .atLeast 1
  | sumIf => .between 2 3
  | lookup => .atLeast 3
  | and | or | minimum | maximum | sum | average | count | concat | concatenate | sequence =>
    .atLeast 0

variable {builtin : Builtin} {args : List Value}

/-- Any other number of arguments is refused. -/
theorem apply_refused (h : builtin.arity.accepts args.length = false) :
    builtin.apply args = .error (.arity builtin.name builtin.arity args.length) := by
  cases builtin with
  | and | or | minimum | maximum | sum | average | count | concat | concatenate | sequence =>
    rw [arity, Arity.accepts_any] at h
    cases h
  | _ => exact refused h

/-! ### Which calls fault -/

/-- For these arguments a function has no answer. -/
def Faults : Builtin → List Value → Prop
  | choose, args | not, args | isNumber, args | ifError, args | chooseBy, args =>
    (args.headD .null).Oversized
  | and, args => Reaches (·.truth = .ok true) Value.Oversized args
  | or, args => Reaches (·.truth = .ok false) Value.Oversized args
  | minimum, args | maximum, args => ∃ v ∈ args, v.Oversized
  | sum, args => SumOverflows args
  | average, args =>
    (∃ v ∈ args, v.Oversized) ∨ Library.MeanOverflows (args.filterMap Value.summand?)
  | sumIf, args => Library.SumIfOverflows args
  | countIf, args => ∃ v ∈ (args.headD .null).toItems, v.ClashesWith (args.getD 1 .null)
  | squareRoot, args => Library.LacksRoot (args.headD .null)
  | logarithm, args => Library.LacksQuotient (Library.logarithmBase args) (args.headD .null)
  | sequence, args => Library.SequenceOverflows args
  | index, args =>
    (∃ identity items, args.headD .null = .array identity items) ∧ (args.getD 1 .null).Oversized
  | lookup, args =>
    Reaches (fun key => Library.matchesKey (args.headD .null) key = .ok false)
      (args.headD .null).Clashes (Library.searchedKeys args)
  | isBlank, _ | absolute, _ | count, _ | round, _ | roundUp, _ | roundDown, _ | power, _
  | ceiling, _ | floor, _ | trim, _ | concat, _ | concatenate, _ | notNull, _ | coalesce, _ => False

/-- With what a function faults. -/
def FaultsWith (builtin : Builtin) (fault : Fault) : Prop :=
  fault.IsOverflow ∨ builtin = logarithm ∧ fault = .numeric .zeroDivisor

theorem faults_apply (accepted : builtin.arity.accepts args.length = true) :
    FaultsWhen builtin.FaultsWith (builtin.Faults args) (builtin.apply args) := by
  have overflows {p : Prop} {x : Except Fault Answer} (h : FaultsWhen Fault.IsOverflow p x) :
      FaultsWhen builtin.FaultsWith p x :=
    h.mono fun _ => .inl
  cases builtin with
  | choose => exact overflows (Library.faults_choose accepted)
  | not => exact overflows (.checked accepted (Value.faults_truth _).formed)
  | isNumber => exact overflows (.checked accepted (Value.faults_number? _).formed)
  | ifError => exact overflows (Library.faults_ifError accepted)
  | chooseBy => exact overflows (Library.faults_chooseBy accepted)
  | and => exact overflows (Library.faults_allTrue args).formed
  | or => exact overflows (Library.faults_anyTrue args).formed
  | minimum => exact overflows (Library.faults_minimum args)
  | maximum => exact overflows (Library.faults_maximum args)
  | sum => exact overflows (Library.faults_sum args)
  | average => exact overflows (Library.faults_average args)
  | sumIf => exact overflows (Library.faults_sumIf accepted)
  | countIf => exact overflows (Library.faults_countIf accepted)
  | squareRoot => exact overflows (Library.faults_squareRoot accepted)
  | logarithm => exact (Library.faults_logarithm accepted).mono fun _ h => .inr ⟨rfl, h⟩
  | sequence => exact overflows (Library.faults_sequence args)
  | index => exact overflows (Library.faults_index accepted)
  | lookup => exact overflows (Library.faults_lookup accepted)
  | count | concat | concatenate => exact .pure id
  | _ => exact .checked accepted (.pure id)

end Builtin

/-- Two integers that have doubles, although their sum has none, and a double. -/
def largeHalves : List Value :=
  [.number (.int (10 ^ 308)), .number (.int (10 ^ 308)), .number (.double 0.5)]

end Quarterly.Formula
