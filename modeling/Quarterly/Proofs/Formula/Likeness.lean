import Mathlib.Data.List.Forall2
import Mathlib.Order.Basic
import Quarterly.Proofs.Formula.Invariant

/-!
# Values of two evaluations

Two evaluations that do the same in different places give their arrays and lambdas different
identities, and their lambdas have bodies in different places. A `Matching` says which identities
stand for each other. Values are alike if they have the same content, with arrays and lambdas that
stand for each other. No operator and no function of the library can tell such values apart: what
is made of them is alike again.
-/

namespace Quarterly.Formula

/-- Which identities of one evaluation stand for which identities of another. -/
structure Matching where
  Same : Nat → Nat → Prop
  unique : ∀ {i j i' j'}, Same i i' → Same j j' → (i = j ↔ i' = j')

namespace Matching

instance : Preorder Matching where
  le w w' := ∀ i j, w.Same i j → w'.Same i j
  le_refl _ _ _ same := same
  le_trans _ _ _ le le' i j same := le' i j (le i j same)

/-- All identities that are matched have been given away. -/
def Below (w : Matching) (n n' : Nat) : Prop := ∀ i j, w.Same i j → i < n ∧ j < n'

theorem Below.mono {w : Matching} {n n' m m' : Nat} (h : w.Below n n') (le : n ≤ m)
    (le' : n' ≤ m') : w.Below m m' := by
  intro i j same
  have below := h i j same
  omega

/-- Match two identities that are new. -/
def extend (w : Matching) {n n' : Nat} (below : w.Below n n') : Matching where
  Same i j := w.Same i j ∨ i = n ∧ j = n'
  unique := by
    rintro i j i' j' (same | ⟨rfl, rfl⟩) (same' | ⟨rfl, rfl⟩)
    · exact w.unique same same'
    · have := below i i' same
      omega
    · have := below j j' same'
      omega
    · simp

section

variable {w : Matching} {n n' : Nat} (below : w.Below n n')

theorem le_extend : w ≤ w.extend below := fun _ _ same => .inl same

theorem extend_new : (w.extend below).Same n n' := .inr ⟨rfl, rfl⟩

theorem below_extend : (w.extend below).Below (n + 1) (n' + 1) := by
  rintro i j (same | ⟨rfl, rfl⟩)
  · have := below i j same
    omega
  · omega

end

/-- All identities below some number stand for themselves. -/
def upTo (n : Nat) : Matching where
  Same i j := i = j ∧ i < n
  unique := by
    rintro i j i' j' ⟨rfl, -⟩ ⟨rfl, -⟩
    rfl

theorem below_upTo (n : Nat) : (upTo n).Below n n := by
  rintro i j ⟨rfl, lt⟩
  exact ⟨lt, lt⟩

end Matching

/-- Values with the same content, whose arrays and lambdas stand for each other. -/
inductive Value.Like (w : Matching) (L : Lambda → Lambda → Prop) : Value → Value → Prop where
  | scalar {v} (h : v.IsScalar) : Like w L v v
  | array {i j items items'} (same : w.Same i j) (length : items.length = items'.length)
      (h : ∀ pair ∈ items.zip items', Like w L pair.1 pair.2) :
      Like w L (.array i items) (.array j items')
  | lambda {i j f f'} (same : w.Same i j) (parameter : f.parameter = f'.parameter) (h : L f f') :
      Like w L (.lambda i f) (.lambda j f')

namespace Value.Like

variable {w : Matching} {L : Lambda → Lambda → Prop} {u v u' v' : Value} {args args' : List Value}

theorem mono {w' : Matching} (le : w ≤ w') {u v : Value} : u.Like w L v → u.Like w' L v
  | .scalar h => .scalar h
  | .array same length h => .array (le _ _ same) length fun pair mem => mono le (h pair mem)
  | .lambda same parameter h => .lambda (le _ _ same) parameter h

theorem newArray {i j : Nat} {items items' : List Value} (same : w.Same i j)
    (h : List.Forall₂ (Like w L) items items') : (Value.array i items).Like w L (.array j items') := by
  obtain ⟨length, pairs⟩ := List.forall₂_iff_zip.mp h
  exact .array same length fun pair mem => pairs mem

theorem items {i j : Nat} {items items' : List Value}
    (h : (Value.array i items).Like w L (.array j items')) : List.Forall₂ (Like w L) items items' := by
  cases h with
  | scalar h => exact h.elim
  | array same length h => exact List.forall₂_iff_zip.mpr ⟨length, h _⟩

theorem toItems (h : u.Like w L v) : List.Forall₂ (Like w L) u.toItems v.toItems := by
  cases h with
  | scalar h =>
    cases u with
    | array => exact h.elim
    | _ => exact .cons (.scalar h) .nil
  | array same length h => exact (Like.array same length h).items
  | lambda same parameter h => exact .cons (.lambda same parameter h) .nil

theorem getD (h : List.Forall₂ (Like w L) args args') (i : Nat) :
    (args.getD i .null).Like w L (args'.getD i .null) := by
  induction h generalizing i with
  | nil => exact .scalar trivial
  | cons first _ ih =>
    cases i with
    | zero => exact first
    | succ i => exact ih i

theorem headD (h : List.Forall₂ (Like w L) args args') :
    (args.headD .null).Like w L (args'.headD .null) := by
  rw [Library.headD_eq_getD, Library.headD_eq_getD]
  exact getD h 0

/-! What can be seen of a value. -/

theorem number?_eq (h : u.Like w L v) : u.number? = v.number? := by
  cases h <;> rfl

theorem isNull_eq (h : u.Like w L v) : u.isNull = v.isNull := by
  cases h <;> rfl

theorem truth_eq (h : u.Like w L v) : u.truth = v.truth := by
  cases h with
  | @array _ _ items items' _ length _ =>
    change pure (!items.isEmpty) = pure (!items'.isEmpty)
    cases items <;> cases items' <;> first | rfl | cases length
  | _ => rfl

theorem itemTexts_cons (v : Value) (rest : List Value) :
    itemTexts (v :: rest) = (if v.isNull then "" else v.toText) :: itemTexts rest := by
  cases v <;> rfl

theorem itemTexts_eq {items items' : List Value} (h : List.Forall₂ (Like w L) items items')
    (texts : List.Forall₂ (fun a b : Value => a.toText = b.toText) items items') :
    itemTexts items = itemTexts items' := by
  induction h with
  | nil => rfl
  | cons first _ ih =>
    obtain ⟨text, texts⟩ := List.forall₂_cons.mp texts
    rw [itemTexts_cons, itemTexts_cons, first.isNull_eq, text, ih texts]

theorem toText_eq {u v : Value} : u.Like w L v → u.toText = v.toText
  | .scalar _ => rfl
  | .lambda _ parameter _ => by rw [toText, toText, parameter]
  | @array _ _ _ _ items items' same length h => by
    have texts : ∀ pair ∈ items.zip items', pair.1.toText = pair.2.toText :=
      fun pair mem => toText_eq (h pair mem)
    rw [toText, toText, itemTexts_eq (Like.array same length h).items
      (List.forall₂_iff_zip.mpr ⟨length, fun mem => texts _ mem⟩)]

theorem strictEqual_eq (h : u.Like w L v) (h' : u'.Like w L v') :
    u.strictEqual u' = v.strictEqual v' := by
  cases h with
  | scalar h =>
    cases h' with
    | scalar h' => rfl
    | _ => cases u <;> first | rfl | exact h.elim
  | array same =>
    cases h' with
    | scalar h' => cases u' <;> first | rfl | exact h'.elim
    | array same' => exact decide_eq_decide.mpr (w.unique same same')
    | lambda => rfl
  | lambda same =>
    cases h' with
    | scalar h' => cases u' <;> first | rfl | exact h'.elim
    | array => rfl
    | lambda same' => exact decide_eq_decide.mpr (w.unique same same')

theorem matchesText_eq (h : u.Like w L v) (s : String) : u.matchesText s = v.matchesText s := by
  unfold matchesText
  rw [h.strictEqual_eq (.scalar (v := .text s) trivial), h.isNull_eq, h.toText_eq]

theorem matchesTextCriterion_eq (h : u.Like w L v) (criterion : String) :
    u.matchesTextCriterion criterion = v.matchesTextCriterion criterion := by
  cases h with
  | scalar => rfl
  | array same length h =>
    have like := Like.array same length h
    unfold matchesTextCriterion
    simp only [like.matchesText_eq, like.strictEqual_eq (.scalar (v := .text _) trivial)]
  | lambda same parameter h =>
    have like := Like.lambda same parameter h
    unfold matchesTextCriterion
    simp only [like.matchesText_eq, like.strictEqual_eq (.scalar (v := .text _) trivial)]

theorem matchesCriterion_eq (h : u.Like w L v) (h' : u'.Like w L v') :
    u.matchesCriterion u' = v.matchesCriterion v' := by
  have equal := h.strictEqual_eq h'
  cases h' with
  | scalar h' =>
    cases u' with
    | null => exact congrArg pure h.isNull_eq
    | text s => exact h.matchesTextCriterion_eq _
    | number n =>
      cases h <;> rfl
    | bool b => exact congrArg pure equal
    | array | lambda => exact h'.elim
  | array => exact congrArg pure equal
  | lambda => exact congrArg pure equal

theorem matchesKey_eq (h : u.Like w L v) (h' : u'.Like w L v') :
    Library.matchesKey u u' = Library.matchesKey v v' := by
  have equal := h.strictEqual_eq h'
  cases h with
  | scalar h =>
    cases h' with
    | scalar h' => rfl
    | _ => cases u <;> exact congrArg pure equal
  | _ =>
    cases h' with
    | scalar h' => cases u' <;> exact congrArg pure equal
    | _ => exact congrArg pure equal

end Value.Like

/-! ### Operators -/

section

variable {w : Matching} {L : Lambda → Lambda → Prop} {a b a' b' : Value}

theorem Value.Like.arithmetic_eq (h : a.Like w L a') (h' : b.Like w L b') (op : ArithmeticOp) :
    arithmetic op a b = arithmetic op a' b' := by
  cases h with
  | scalar h =>
    cases h' with
    | scalar h' => rfl
    | _ => cases a <;> rfl
  | _ => rfl

theorem Value.Like.comparison_eq (h : a.Like w L a') (h' : b.Like w L b') (op : ComparisonOp) :
    comparison op a b = comparison op a' b' := by
  have others : op.onOthers a b = op.onOthers a' b' := by
    cases op <;> simp only [ComparisonOp.onOthers, h.strictEqual_eq h']
  cases h with
  | scalar h =>
    cases h' with
    | scalar h' => rfl
    | _ => cases a <;> first | rfl | exact congrArg pure others
  | _ =>
    cases h' with
    | scalar h' => cases b <;> first | rfl | exact congrArg pure others
    | _ => exact congrArg pure others

theorem Value.Like.negate_like (h : a.Like w L a') : (negate a).Like w L (negate a') := by
  cases h with
  | scalar _ =>
    cases a <;> exact .scalar trivial
  | _ => exact .scalar trivial

end

/-! ### Functions of the library -/

/-- Answers of alike values. -/
inductive Answer.Like (w : Matching) (L : Lambda → Lambda → Prop) : Answer → Answer → Prop where
  | value {u v} (h : u.Like w L v) : Like w L (.value u) (.value v)
  | newArray {items items'} (h : List.Forall₂ (Value.Like w L) items items') :
      Like w L (.newArray items) (.newArray items')

/-- What two computations yield is related if both yield something. -/
def Both {ε α β : Type} (R : α → β → Prop) (x : Except ε α) (y : Except ε β) : Prop :=
  ∀ a b, x = .ok a → y = .ok b → R a b

namespace Both

variable {ε α β γ : Type} {R : β → γ → Prop}

theorem pure {b : β} {c : γ} (h : R b c) : Both R (.ok b : Except ε β) (.ok c) := by
  rintro _ _ ⟨⟩ ⟨⟩
  exact h

/-- The same computation comes first. -/
theorem bind {x y : Except ε α} {f : α → Except ε β} {g : α → Except ε γ} (same : x = y)
    (h : ∀ a, Both R (f a) (g a)) : Both R (x >>= f) (y >>= g) := by
  subst same
  cases x with
  | ok a => exact h a
  | error cause =>
    intro b c hb
    cases hb

/-- The same computation on numbers comes first. -/
theorem form {x y : Except NumericFault α} {f : α → Except Fault β} {g : α → Except Fault γ}
    (same : x = y) (h : ∀ a, Both R (f a) (g a)) :
    Both R ((liftM x : Except Fault α) >>= f) ((liftM y : Except Fault α) >>= g) :=
  bind (congrArg liftM same) h

/-- Computations with related results come first. -/
theorem andThen {δ : Type} {S : α → δ → Prop} {x : Except NumericFault α} {y : Except NumericFault δ}
    {f : α → Except Fault β} {g : δ → Except Fault γ} (first : Both S x y)
    (h : ∀ a d, S a d → Both R (f a) (g d)) :
    Both R ((liftM x : Except Fault α) >>= f) ((liftM y : Except Fault δ) >>= g) := by
  cases x with
  | error cause =>
    intro b c hb
    cases hb
  | ok a =>
    cases y with
    | error cause =>
      intro b c _ hc
      cases hc
    | ok d => exact h a d (first a d rfl rfl)

/-- The numbers of arguments are checked first. -/
theorem arity {function : String} {accepted : Arity} {count count' : Nat}
    {f : Unit → Except Fault β} {g : Unit → Except Fault γ} (same : count = count')
    (h : Both R (f ()) (g ())) :
    Both R (checkArity function accepted count >>= f) (checkArity function accepted count' >>= g) :=
  bind (congrArg _ same) fun _ => h

theorem lift {x : Except NumericFault β} {y : Except NumericFault γ} (h : Both R x y) :
    Both R (liftM x : Except Fault β) (liftM y : Except Fault γ) := by
  intro b c hb hc
  cases x with
  | error cause => cases hb
  | ok b' =>
    cases y with
    | error cause => cases hc
    | ok c' =>
      cases hb
      cases hc
      exact h _ _ rfl rfl

theorem ite {p : Prop} [Decidable p] {x x' : Except ε β} {y y' : Except ε γ} (yes : Both R x y)
    (no : Both R x' y') : Both R (if p then x else x') (if p then y else y') := by
  split
  · exact yes
  · exact no

variable {w : Matching} {L : Lambda → Lambda → Prop}

theorem value {u v : Value} (h : u.Like w L v) :
    Both (Answer.Like w L) (.ok (.value u) : Except ε Answer) (.ok (.value v)) :=
  pure (.value h)

theorem scalar {v : Value} (h : v.IsScalar) :
    Both (Answer.Like w L) (.ok (.value v) : Except ε Answer) (.ok (.value v)) :=
  value (.scalar h)

/-- The same computation of an answer without arrays and lambdas. -/
theorem same {x : Except ε Answer} (h : Gives Answer.IsScalar x) : Both (Answer.Like w L) x x := by
  rintro a b ha hb
  obtain rfl : a = b := by
    rw [ha] at hb
    cases hb
    rfl
  have scalar := h a ha
  cases a with
  | value v => exact .value (.scalar (scalar v List.mem_cons_self))
  | newArray items =>
    exact .newArray (List.forall₂_same.mpr fun v mem => .scalar (scalar v mem))

/-- A function of two numbers. -/
theorem ofNumbers {f : Number → Number → Answer} (scalar : ∀ a b, (f a b).IsScalar)
    {args args' : List Value} :
    List.Forall₂ (Value.Like w L) args args' → Both (Answer.Like w L)
      (.ok (match args with
        | [.number a, .number b] => f a b
        | _ => .null) : Except ε Answer)
      (.ok (match args' with
        | [.number a, .number b] => f a b
        | _ => .null)) := by
  have null : Both (Answer.Like w L) (.ok .null : Except ε Answer) (.ok .null) :=
    Both.scalar (v := .null) trivial
  rintro (_ | @⟨u, _, _, _, first, _ | @⟨v, _, _, _, second, _ | _⟩⟩)
  · exact null
  · cases u <;> cases first <;> exact null
  · cases u with
    | number a =>
      cases first
      cases v with
      | number b =>
        cases second
        exact .same (.pure (scalar a b))
      | _ => cases second <;> exact null
    | _ => cases first <;> exact null
  · cases u with
    | number a => cases v <;> cases first <;> cases second <;> exact null
    | _ => cases first <;> exact null

end Both

section

variable {w : Matching} {L : Lambda → Lambda → Prop} {args args' : List Value}
  (h : List.Forall₂ (Value.Like w L) args args')

include h

theorem numbersOf_eq : numbersOf args = numbersOf args' := by
  induction h with
  | nil => rfl
  | cons first _ ih => rw [numbersOf, numbersOf, first.number?_eq, ih]

namespace Library

open Value.Like

theorem allTrue_eq : allTrue args = allTrue args' := by
  induction h with
  | nil => rfl
  | cons first _ ih => rw [allTrue, allTrue, first.truth_eq, ih]

theorem anyTrue_eq : anyTrue args = anyTrue args' := by
  induction h with
  | nil => rfl
  | cons first _ ih => rw [anyTrue, anyTrue, first.truth_eq, ih]

/-! Conditions and null. -/

theorem both_choose : Both (Answer.Like w L) (choose args) (choose args') := by
  refine .arity h.length_eq (.form (headD h).truth_eq fun isTrue => ?_)
  have chosen := getD h (if isTrue then 1 else 2)
  generalize args.getD (if isTrue then 1 else 2) .null = u at chosen
  generalize args'.getD (if isTrue then 1 else 2) .null = v at chosen
  cases chosen with
  | scalar scalar => cases u <;> first | exact .scalar trivial | exact scalar.elim
  | array same length items => exact .value (.array same length items)
  | lambda same parameter f => exact .value (.lambda same parameter f)

theorem both_and : Both (Answer.Like w L) (and args) (and args') :=
  .form (allTrue_eq h) fun _ => .scalar trivial

theorem both_or : Both (Answer.Like w L) (or args) (or args') :=
  .form (anyTrue_eq h) fun _ => .scalar trivial

theorem both_not : Both (Answer.Like w L) (not args) (not args') :=
  .arity h.length_eq (.form (headD h).truth_eq fun _ => .scalar trivial)

theorem both_isNumber : Both (Answer.Like w L) (isNumber args) (isNumber args') :=
  .arity h.length_eq (.form (headD h).number?_eq fun _ => .scalar trivial)

theorem both_isBlank : Both (Answer.Like w L) (isBlank args) (isBlank args') := by
  refine .arity h.length_eq ?_
  have first := headD h
  generalize args.headD .null = u at first
  generalize args'.headD .null = v at first
  cases first <;> exact .scalar trivial

theorem both_ifError : Both (Answer.Like w L) (ifError args) (ifError args') := by
  refine .arity h.length_eq ?_
  have first := headD h
  have second := getD h 1
  dsimp only
  generalize args.headD .null = u at first
  generalize args'.headD .null = v at first
  have chosen (isTrouble : Bool) : Both (Answer.Like w L)
      (pure (.value (if isTrouble then args.getD 1 .null else u)) : Except Fault Answer)
      (pure (.value (if isTrouble then args'.getD 1 .null else v))) := by
    cases isTrouble
    · exact .value first
    · exact .value second
  cases first with
  | scalar scalar =>
    cases u with
    | null => exact chosen true
    | number n => exact .form rfl chosen
    | _ => exact chosen false
  | array => exact chosen false
  | lambda => exact chosen false

theorem both_notNull : Both (Answer.Like w L) (notNull args) (notNull args') := by
  refine .arity h.length_eq (.value ?_)
  rw [(headD h).isNull_eq]
  split
  · exact getD h 1
  · exact headD h

theorem both_coalesce : Both (Answer.Like w L) (coalesce args) (coalesce args') := by
  refine .arity h.length_eq (.value ?_)
  induction h with
  | nil => exact .scalar trivial
  | cons first _ ih =>
    rw [List.find?_cons, List.find?_cons, first.isNull_eq]
    split
    · exact first
    · exact ih

/-! Mathematics. -/

theorem both_minimum : Both (Answer.Like w L) (minimum args) (minimum args') := by
  refine .form (numbersOf_eq h) fun ns => ?_
  cases Number.least? ns <;> exact .scalar trivial

theorem both_maximum : Both (Answer.Like w L) (maximum args) (maximum args') := by
  refine .form (numbersOf_eq h) fun ns => ?_
  cases Number.greatest? ns <;> exact .scalar trivial

theorem both_absolute : Both (Answer.Like w L) (absolute args) (absolute args') := by
  refine .arity h.length_eq ?_
  have first := headD h
  generalize args.headD .null = u at first
  generalize args'.headD .null = v at first
  cases first with
  | scalar scalar => cases u <;> exact .scalar trivial
  | _ => exact .scalar trivial

theorem both_sum : Both (Answer.Like w L) (sum args) (sum args') :=
  .form (numbersOf_eq h) fun _ => .form rfl fun n => .lift (.same (.finiteOrNull n))

theorem both_average : Both (Answer.Like w L) (average args) (average args') := by
  refine .form (numbersOf_eq h) fun ns => ?_
  split
  · exact .scalar trivial
  · exact .form rfl fun _ => .form rfl fun x => .lift (.same (.finiteOrNull (.double x)))

theorem countP_eq {q : Value → Bool} (same : ∀ u v : Value, u.Like w L v → q u = q v) :
    args.countP q = args'.countP q := by
  induction h with
  | nil => rfl
  | cons first _ ih => rw [List.countP_cons, List.countP_cons, ih, same _ _ first]

theorem both_count : Both (Answer.Like w L) (count args) (count args') := by
  unfold count
  rw [countP_eq h fun u v like => by cases like <;> rfl]
  exact .scalar trivial

theorem both_rounding (name : String) (round : Float → Except NumericFault Float) :
    Both (Answer.Like w L) (rounding name round args) (rounding name round args') :=
  .arity h.length_eq
    (.ofNumbers (fun value digits => (isScalar_roundScaled round value digits).nullOnFault) h)

theorem both_power : Both (Answer.Like w L) (power args) (power args') := by
  refine .arity h.length_eq (.ofNumbers (fun base exponent => Gives.nullOnFault ?_) h)
  refine .bind fun result _ => ?_
  cases result <;> exact .scalar trivial

theorem both_squareRoot : Both (Answer.Like w L) (squareRoot args) (squareRoot args') := by
  refine .arity h.length_eq ?_
  have first := headD h
  generalize args.headD .null = u at first
  generalize args'.headD .null = v at first
  cases first with
  | scalar scalar =>
    cases u with
    | number n => exact .ite (.scalar trivial) (.form rfl fun _ => .scalar trivial)
    | _ => exact .scalar trivial
  | _ => exact .scalar trivial

theorem both_logarithm : Both (Answer.Like w L) (logarithm args) (logarithm args') := by
  refine .arity h.length_eq ?_
  have first := headD h
  have second := getD h 1
  generalize args.headD .null = u at first
  generalize args'.headD .null = v at first
  generalize args.getD 1 .null = b at second
  generalize args'.getD 1 .null = b' at second
  cases first with
  | scalar _ =>
    cases u with
    | number n =>
      cases second <;> exact .ite (.scalar (v := .null) trivial) (.form rfl fun _ => .scalar trivial)
    | _ => exact .scalar trivial
  | _ => exact .scalar trivial

theorem significance_eq : significance args = significance args' := by
  have second := getD h 1
  unfold significance
  generalize args.getD 1 .null = u at second
  generalize args'.getD 1 .null = v at second
  cases second <;> rfl

theorem both_multiple (name : String) (round : Float → Except NumericFault Int) :
    Both (Answer.Like w L) (multiple name round args) (multiple name round args') := by
  refine .arity h.length_eq ?_
  rw [significance_eq h]
  have first := headD h
  generalize args.headD .null = u at first
  generalize args'.headD .null = v at first
  have scalar (n : Number) : (nullOnFault do
      return .number (← (Number.int (← round (← n.div (significance args')))).mul
        (significance args'))).IsScalar :=
    Gives.nullOnFault (.bind fun _ _ => .bind fun _ _ => .bind fun _ _ => .scalar trivial)
  cases first with
  | scalar _ =>
    cases u with
    | number n => exact .same (.pure (scalar n))
    | _ => exact .scalar trivial
  | _ => exact .scalar trivial

/-! Text and aggregation. -/

omit h in
theorem textOrEmpty_eq {u v : Value} (h : u.Like w L v) : textOrEmpty u = textOrEmpty v := by
  have text := h.toText_eq
  cases h with
  | scalar => rfl
  | _ => exact text

theorem both_trim : Both (Answer.Like w L) (trim args) (trim args') := by
  refine .arity h.length_eq ?_
  rw [textOrEmpty_eq (headD h)]
  exact .scalar trivial

theorem both_concat : Both (Answer.Like w L) (concat args) (concat args') := by
  have texts : args.map textOrEmpty = args'.map textOrEmpty := by
    induction h with
    | nil => rfl
    | cons first _ ih => rw [List.map_cons, List.map_cons, textOrEmpty_eq first, ih]
  unfold concat
  rw [texts]
  exact .scalar trivial

theorem sumMatching_eq {u v : Value} (criterion : u.Like w L v) {summed summed' : List Value}
    (like : List.Forall₂ (Value.Like w L) summed summed') (total : Number) :
    sumMatching u total (args.zip summed) = sumMatching v total (args'.zip summed') := by
  induction h generalizing summed summed' total with
  | nil => rfl
  | cons first _ ih =>
    cases like with
    | nil => rfl
    | cons value rest =>
      simp only [List.zip_cons_cons, sumMatching, first.matchesCriterion_eq criterion,
        value.number?_eq, ih rest]

theorem both_sumIf : Both (Answer.Like w L) (sumIf args) (sumIf args') := by
  have range := (headD h).toItems
  have criterion := getD h 1
  refine .arity h.length_eq (.form ?_ fun n => .lift (.same (.finiteOrNull n)))
  rcases h with _ | @⟨_, _, _, _, _, _ | ⟨_, _ | ⟨third, _ | _⟩⟩⟩
  case cons.cons.cons.nil => exact sumMatching_eq range criterion third.toItems _
  all_goals exact sumMatching_eq range criterion range _

theorem countMatching_eq {u v : Value} (criterion : u.Like w L v) :
    countMatching u args = countMatching v args' := by
  induction h with
  | nil => rfl
  | cons first _ ih =>
    rw [countMatching, countMatching, first.matchesCriterion_eq criterion, ih]

theorem both_countIf : Both (Answer.Like w L) (countIf args) (countIf args') :=
  .arity h.length_eq (.form (countMatching_eq (headD h).toItems (getD h 1)) fun _ => .scalar trivial)

/-! Arrays. -/

theorem atPosition_like (position : Int) :
    ((atPosition? args position).getD .null).Like w L ((atPosition? args' position).getD .null) := by
  unfold atPosition?
  split
  · rw [← List.getD_eq_getElem?_getD, ← List.getD_eq_getElem?_getD]
    exact getD h _
  · exact .scalar trivial

theorem both_chooseOne {u v : Value} (like : u.Like w L v) :
    Both (Answer.Like w L) (chooseOne u args) (chooseOne v args') := by
  have null : Both (Answer.Like w L) (.ok .null : Except NumericFault Answer) (.ok .null) :=
    Both.scalar (v := .null) trivial
  cases u with
  | number n =>
    cases like
    refine .bind rfl fun isFinite => .ite ?_ null
    exact .bind rfl fun position => .value (atPosition_like h position)
  | _ => cases like <;> exact null

theorem both_chooseBy : Both (Answer.Like w L) (chooseBy args) (chooseBy args') := by
  refine .arity h.length_eq ?_
  have first := headD h
  have choices : List.Forall₂ (Value.Like w L) (args.drop 1) (args'.drop 1) := List.forall₂_drop 1 h
  dsimp only
  generalize args.headD .null = u at first
  generalize args'.headD .null = v at first
  generalize args.drop 1 = left at choices
  generalize args'.drop 1 = right at choices
  cases first with
  | scalar scalar =>
    cases u with
    | array => exact scalar.elim
    | _ => exact .lift (both_chooseOne choices (.scalar scalar))
  | array same length items =>
    dsimp only
    rw [length]
    refine .pure (.newArray (List.forall₂_map_left_iff.mpr (List.forall₂_map_right_iff.mpr ?_)))
    exact List.forall₂_same.mpr fun i _ => getD choices i
  | lambda same parameter f => exact .lift (both_chooseOne choices (.lambda same parameter f))

omit h in
theorem countArgument_eq {u v : Value} (like : u.Like w L v) (default : Nat) :
    countArgument u default = countArgument v default := by
  cases like <;> rfl

omit h in
theorem stepArgument_eq {u v : Value} (like : u.Like w L v) : stepArgument u = stepArgument v := by
  cases like <;> rfl

theorem both_sequence : Both (Answer.Like w L) (sequence args) (sequence args') := by
  unfold sequence
  rw [countArgument_eq (getD h 0), countArgument_eq (getD h 1), stepArgument_eq (getD h 2),
    stepArgument_eq (getD h 3)]
  exact .form rfl fun rows => .form rfl fun columns => .same
    (.form fun values h => .pure (isScalar_progression _ _ _ _ values h))

theorem both_index : Both (Answer.Like w L) (index args) (index args') := by
  refine .arity h.length_eq ?_
  have first := headD h
  have second := getD h 1
  generalize args.headD .null = u at first
  generalize args'.headD .null = v at first
  generalize args.getD 1 .null = row at second
  generalize args'.getD 1 .null = row' at second
  cases first with
  | scalar scalar =>
    cases u with
    | array => exact scalar.elim
    | _ => exact .scalar (v := .null) trivial
  | array same length items =>
    have chosen (position : Int) := Both.value (ε := Fault)
      (atPosition_like (Value.Like.array same length items).items (max 1 position))
    cases row with
    | number n =>
      cases second
      refine .form rfl fun isFinite => .ite ?_ (chosen 0)
      exact .form rfl fun position => chosen position
    | _ => cases second <;> exact chosen 0
  | lambda => exact .scalar (v := .null) trivial

/-- Keys and the entries beside them, where a missing entry counts as null. -/
def EntryLike (w : Matching) (L : Lambda → Lambda → Prop) (p q : Value × Option Value) : Prop :=
  p.1.Like w L q.1 ∧ (p.2.getD .null).Like w L (q.2.getD .null)

omit h in
theorem both_findEntry {wanted wanted' default default' : Value} (like : wanted.Like w L wanted')
    (like' : default.Like w L default') {pairs pairs' : List (Value × Option Value)}
    (related : List.Forall₂ (EntryLike w L) pairs pairs') :
    Both (Value.Like w L) (findEntry wanted default pairs) (findEntry wanted' default' pairs') := by
  induction related with
  | nil => exact .pure like'
  | @cons pair pair' _ _ first _ ih =>
    obtain ⟨key, entry⟩ := pair
    obtain ⟨key', entry'⟩ := pair'
    refine .bind (like.matchesKey_eq first.1) fun found => .ite (.pure ?_) ih
    have same := first.2
    rcases entry with _ | u
    · rcases entry' with _ | v
      · exact like'
      · cases v <;> cases same
        exact like'
    · rcases entry' with _ | v
      · cases u <;> cases same
        exact like'
      · change u.Like w L v at same
        cases same with
        | scalar h => cases u <;> first | exact like' | exact .scalar h
        | array same length h => exact .array same length h
        | lambda same parameter h => exact .lambda same parameter h

theorem entryLike_mapIdx {entries entries' : List Value}
    (related : List.Forall₂ (Value.Like w L) entries entries') :
    List.Forall₂ (EntryLike w L) (args.mapIdx fun i key => (key, entries[i]?))
      (args'.mapIdx fun i key => (key, entries'[i]?)) := by
  refine List.forall₂_iff_get.mpr ⟨by simp [h.length_eq], fun i lt lt' => ?_⟩
  simp only [List.get_eq_getElem, List.getElem_mapIdx]
  rw [List.length_mapIdx] at lt lt'
  refine ⟨h.get lt lt', ?_⟩
  rw [← List.getD_eq_getElem?_getD, ← List.getD_eq_getElem?_getD]
  exact getD related i

theorem both_lookup : Both (Answer.Like w L) (lookup args) (lookup args') := by
  have pairs := entryLike_mapIdx (getD h 1).toItems (getD h 2).toItems
  have direction := getD h 5
  refine .arity h.length_eq (Both.andThen (S := Value.Like w L) ?_ fun _ _ like => .value like)
  generalize args.getD 5 .null = u at direction
  generalize args'.getD 5 .null = v at direction
  refine both_findEntry (headD h) (getD h 3) ?_
  cases u with
  | number n =>
    cases direction
    dsimp only
    split
    · exact List.forall₂_reverse_iff.mpr pairs
    · exact pairs
  | _ => cases direction <;> exact pairs

theorem both_mapArguments :
    Both (fun a b => List.Forall₂ (Value.Like w L) a.1 b.1 ∧ a.2.parameter = b.2.parameter ∧
      L a.2 b.2) (mapArguments args) (mapArguments args') := by
  refine .arity h.length_eq ?_
  have items := (headD h).toItems
  have second := getD h 1
  generalize args.getD 1 .null = u at second
  generalize args'.getD 1 .null = v at second
  cases second with
  | scalar scalar =>
    cases u with
    | lambda => exact scalar.elim
    | _ => rintro _ _ ⟨⟩
  | array => rintro _ _ ⟨⟩
  | lambda same parameter f => exact .pure ⟨items, parameter, f⟩

end Library

/-- No function of the library can tell alike arguments apart. -/
theorem Builtin.both_apply (builtin : Builtin) :
    Both (Answer.Like w L) (builtin.apply args) (builtin.apply args') := by
  cases builtin with
  | choose => exact Library.both_choose h
  | and => exact Library.both_and h
  | or => exact Library.both_or h
  | not => exact Library.both_not h
  | isNumber => exact Library.both_isNumber h
  | isBlank => exact Library.both_isBlank h
  | minimum => exact Library.both_minimum h
  | maximum => exact Library.both_maximum h
  | absolute => exact Library.both_absolute h
  | sum => exact Library.both_sum h
  | average => exact Library.both_average h
  | count => exact Library.both_count h
  | round | roundUp | roundDown => exact Library.both_rounding h _ _
  | squareRoot => exact Library.both_squareRoot h
  | power => exact Library.both_power h
  | logarithm => exact Library.both_logarithm h
  | ceiling | floor => exact Library.both_multiple h _ _
  | trim => exact Library.both_trim h
  | concat | concatenate => exact Library.both_concat h
  | ifError => exact Library.both_ifError h
  | notNull => exact Library.both_notNull h
  | coalesce => exact Library.both_coalesce h
  | sumIf => exact Library.both_sumIf h
  | countIf => exact Library.both_countIf h
  | chooseBy => exact Library.both_chooseBy h
  | sequence => exact Library.both_sequence h
  | index => exact Library.both_index h
  | lookup => exact Library.both_lookup h

end

end Quarterly.Formula
