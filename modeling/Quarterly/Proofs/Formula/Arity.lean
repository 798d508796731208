import Quarterly.Evaluator
import Quarterly.Proofs.Formula.Lockstep
import Quarterly.Proofs.Formula.Renaming
import Quarterly.Proofs.Formula.Uncalled
import Quarterly.Proofs.Formula.Validity

/-!
# Numbers of arguments in valid formulas

A formula is checked by evaluating it once over an empty window, and a function that is called with
a number of arguments that it does not take is found out that way, if the check calls it at all. On
data more lambdas may be called, and called on more items. Two evaluations stay in lockstep but for
the bodies of lambdas, so an evaluation of a valid formula can complain of a number of arguments
only in a body, when it is called, and only in a body that nothing evaluates over the empty window.
-/

namespace Quarterly.Formula

/-- A fault of a function that does not take so many arguments. -/
inductive Fault.IsArity : Fault → Prop where
  | arity (function accepted count) : IsArity (.arity function accepted count)

theorem Fault.not_isArity_tooDeep (limit : Int) : ¬ (Fault.tooDeep limit).IsArity := nofun

/-! ### Functions of the library -/

/-- A computation that does not complain about a number of arguments. -/
def Uncomplaining {α : Type} (x : Except Fault α) : Prop :=
  ∀ fault, x = .error fault → ¬ fault.IsArity

namespace Uncomplaining

variable {α β : Type}

theorem pure (a : α) : Uncomplaining (.ok a) := by
  intro fault h
  cases h

theorem throw {fault : Fault} (h : ¬ fault.IsArity) :
    Uncomplaining (.error fault : Except Fault α) := by
  intro fault' same
  cases same
  exact h

/-- A computation on numbers has no number of arguments to complain about. -/
theorem lift (x : Except NumericFault α) : Uncomplaining (liftM x : Except Fault α) := by
  cases x with
  | ok a => exact pure a
  | error cause => exact throw nofun

/-- Form a number first. -/
theorem bind {x : Except NumericFault α} {f : α → Except Fault β}
    (h : ∀ a, Uncomplaining (f a)) : Uncomplaining ((liftM x : Except Fault α) >>= f) := by
  cases x with
  | ok a => exact h a
  | error cause => exact lift (.error cause)

theorem ite {p : Prop} [Decidable p] {x y : Except Fault α} (yes : Uncomplaining x)
    (no : Uncomplaining y) : Uncomplaining (if p then x else y) := by
  split
  · exact yes
  · exact no

end Uncomplaining

/-- A function whose complaints about the number of its arguments depend on nothing else. -/
def Counts {α : Type} (f : List Value → Except Fault α) : Prop :=
  ∀ args args' : List Value, args.length = args'.length →
    ∀ fault : Fault, fault.IsArity → f args = .error fault → f args' = .error fault

namespace Counts

variable {α : Type}

/-- A function that takes any number of arguments. -/
theorem any {f : List Value → Except Fault α} (h : ∀ args, Uncomplaining (f args)) :
    Counts f := by
  intro args _ _ fault arity hf
  exact absurd arity (h args fault hf)

/-- A function that counts its arguments before it looks at them. -/
theorem checked {name : String} {accepted : Arity} {f : List Value → Unit → Except Fault α}
    (h : ∀ args, Uncomplaining (f args ())) :
    Counts fun args => checkArity name accepted args.length >>= f args := by
  intro args args' same fault arity hf
  dsimp only at hf ⊢
  unfold checkArity at hf ⊢
  rw [← same]
  split at hf
  · exact absurd arity (h args fault hf)
  · rw [if_neg ‹_›]
    exact hf

end Counts

namespace Library

theorem counts_choose : Counts choose := .checked fun _ => .bind fun _ => .pure _

theorem counts_ifError : Counts ifError := by
  apply Counts.checked
  intro args
  have chosen : ∀ isTrouble : Bool, Uncomplaining (pure (Answer.value
      (if isTrouble then args.getD 1 .null else args.headD .null))) := fun _ => .pure _
  dsimp only
  split
  · exact chosen true
  · exact .bind chosen
  · exact chosen false

theorem counts_average : Counts average := by
  apply Counts.any
  intro args
  apply Uncomplaining.bind
  intro ns
  split
  · exact .pure _
  · exact .bind fun _ => .bind fun _ => .lift _

theorem counts_rounding (name : String) (round : Float → Except NumericFault Float) :
    Counts (rounding name round) := .checked fun _ => .pure _

theorem counts_squareRoot : Counts squareRoot := by
  apply Counts.checked
  intro args
  split
  · exact .ite (.pure _) (.bind fun _ => .pure _)
  · exact .pure _

theorem counts_logarithm : Counts logarithm := by
  apply Counts.checked
  intro args
  split
  · exact .ite (.pure _) (.bind fun _ => .pure _)
  · exact .pure _

theorem counts_multiple (name : String) (round : Float → Except NumericFault Int) :
    Counts (multiple name round) := .checked fun _ => .pure _

theorem counts_chooseBy : Counts chooseBy := by
  apply Counts.checked
  intro args
  split
  · exact .pure _
  · exact .lift _

theorem counts_index : Counts index := by
  apply Counts.checked
  intro args
  have picked : ∀ items row, Uncomplaining
      (pure (Answer.value ((atPosition? items (max 1 row)).getD .null))) := fun _ _ => .pure _
  split
  · split
    · apply Uncomplaining.bind
      intro isFinite
      cases isFinite
      · exact picked _ 0
      · exact .bind fun row => picked _ row
    · exact picked _ 0
  · exact .pure _

theorem counts_mapArguments : Counts mapArguments := by
  apply Counts.checked
  intro args
  split
  · exact .pure _
  · exact .throw nofun

end Library

/-- Whether a function of the library complains about the number of its arguments depends on their
number only. -/
theorem Builtin.counts_apply (builtin : Builtin) : Counts builtin.apply := by
  cases builtin with
  | choose => exact Library.counts_choose
  | and => exact .any fun _ => .bind fun _ => .pure _
  | or => exact .any fun _ => .bind fun _ => .pure _
  | not => exact .checked fun _ => .bind fun _ => .pure _
  | isNumber => exact .checked fun _ => .bind fun _ => .pure _
  | isBlank => exact .checked fun _ => .pure _
  | minimum => exact .any fun _ => .bind fun _ => .pure _
  | maximum => exact .any fun _ => .bind fun _ => .pure _
  | absolute => exact .checked fun _ => .pure _
  | sum => exact .any fun _ => .bind fun _ => .bind fun _ => .lift _
  | average => exact Library.counts_average
  | count => exact .any fun _ => .pure _
  | round | roundUp | roundDown => exact Library.counts_rounding _ _
  | squareRoot => exact Library.counts_squareRoot
  | power => exact .checked fun _ => .pure _
  | logarithm => exact Library.counts_logarithm
  | ceiling | floor => exact Library.counts_multiple _ _
  | trim => exact .checked fun _ => .pure _
  | concat | concatenate => exact .any fun _ => .pure _
  | ifError => exact Library.counts_ifError
  | notNull => exact .checked fun _ => .pure _
  | coalesce => exact .checked fun _ => .pure _
  | sumIf => exact .checked fun _ => .bind fun _ => .lift _
  | countIf => exact .checked fun _ => .bind fun _ => .pure _
  | chooseBy => exact Library.counts_chooseBy
  | sequence => exact .any fun _ => .bind fun _ => .bind fun _ => .bind fun _ => .pure _
  | index => exact Library.counts_index
  | lookup => exact .checked fun _ => .bind fun _ => .pure _

/-! ### Faults of calls -/

/-- The readings of lambda bodies, but with the faults of calls renamed where the body is to
blame. -/
def Bodies.renaming (blamed : Nat → Prop) [DecidablePred blamed] (rename : Fault → Fault) :
    Bodies where
  skipped := id
  called m := fun c s => if blamed s.position then renamed rename m c s else m c s

/-- The live evaluation faults in the body of a lambda that it calls and that is to blame: whatever
stands in for the faults of such bodies is the fault of the evaluation. -/
def FaultsInCall (blamed : Nat → Prop) [DecidablePred blamed] (c : Context) (scope : Scope) :
    Prop :=
  ∀ fault, ∃ s, readAllThrough (.renaming blamed fun _ => fault) c.maxDepth.toNat scope c
    (.start scope) = .error fault s

/-- A family of computations, one for the faults themselves and one for each fault that stands in:
the runs are the same, or each ends with its own name of one fault. -/
def StandsIn {α : Type} (m : Option Fault → Eval α) : Prop :=
  ∀ c s, (∀ i, m i c s = m none c s) ∨ ∃ fault s', ∀ i, m i c s = .error (i.getD fault) s'

namespace StandsIn

variable {α β : Type}

theorem const (m : Eval α) : StandsIn fun _ => m := fun _ _ => .inl fun _ => rfl

theorem bind {m : Option Fault → Eval α} {f : Option Fault → α → Eval β} (hm : StandsIn m)
    (hf : ∀ a, StandsIn fun i => f i a) : StandsIn fun i => m i >>= f i := by
  intro c s
  simp only [run_bind]
  rcases hm c s with same | ⟨fault, s', ends⟩
  · simp only [same]
    cases m none c s with
    | ok a s' => exact hf a c s'
    | error fault s' => exact .inl fun _ => rfl
  · simp only [ends]
    exact .inr ⟨fault, s', fun _ => rfl⟩

theorem elsewhere {start : Nat} {m : Option Fault → Eval α} (hm : StandsIn m) :
    StandsIn fun i => Eval.elsewhere start (m i) := by
  intro c s
  unfold Eval.elsewhere
  rcases hm c { s with position := start } with same | ⟨fault, s', ends⟩
  · simp only [same]
    exact .inl fun _ => trivial
  · simp only [ends]
    exact .inr ⟨fault, _, fun _ => rfl⟩

def logic : FamilyLogic (Option Fault) := ⟨StandsIn, const, bind, elsewhere⟩

variable (blamed : Nat → Prop) [DecidablePred blamed]

theorem called {m : Option Fault → Eval Value} (hm : StandsIn m) :
    StandsIn fun i => (Bodies.renaming blamed i.getD).called (m i) := by
  intro c s
  by_cases here : blamed s.position
  · simp only [Bodies.renaming, if_pos here, renamed]
    rcases hm c s with same | ⟨fault, s', ends⟩
    · simp only [same]
      cases m none c s with
      | ok v s' => exact .inl fun _ => rfl
      | error fault s' => exact .inr ⟨fault, s', fun _ => rfl⟩
    · simp only [ends]
      refine .inr ⟨fault, s', fun i => ?_⟩
      cases i <;> rfl
  · simp only [Bodies.renaming, if_neg here]
    exact hm c s

theorem readAllThrough (depth : Nat) (scope : Scope) :
    StandsIn fun i => Formula.readAllThrough (.renaming blamed i.getD) depth scope := by
  apply logic.readAllThrough
  · intro depth scope
    exact const _
  · intro m hm
    exact called blamed hm

end StandsIn

theorem Bodies.renaming_id (blamed : Nat → Prop) [DecidablePred blamed] :
    Bodies.renaming blamed id = .plain := by
  refine congrArg (Bodies.mk id) ?_
  funext m c s
  rw [renamed_id]
  exact ite_self _

/-- A fault of a live evaluation came from a call that is to blame, or else it makes no difference
what stands in for the faults of such calls. -/
theorem faultsInCall_or (blamed : Nat → Prop) [DecidablePred blamed] {c : Context}
    {scope : Scope} {fault : Fault} (h : (evaluate c .live scope).outcome = .error fault) :
    FaultsInCall blamed c scope ∨
      ∀ other, ∃ s, readAllThrough (.renaming blamed fun _ => other) c.maxDepth.toNat scope c
        (.start scope) = .error fault s := by
  rcases StandsIn.readAllThrough blamed c.maxDepth.toNat scope c (.start scope) with
    same | ⟨cause, s, ends⟩
  · right
    intro other
    have unnamed : readAllThrough (.renaming blamed fun _ => other) c.maxDepth.toNat scope c
        (.start scope) = readAll c.maxDepth.toNat .live scope c (.start scope) := by
      rw [← readAllThrough_plain, ← Bodies.renaming_id blamed]
      exact same (some other)
    obtain ⟨s, hr, -⟩ := exists_run_of_fault h
    exact ⟨s, unnamed.trans hr⟩
  · left
    intro other
    exact ⟨s, ends (some other)⟩

/-! ### The check and an evaluation in lockstep -/

/-- What a formula is checked with. -/
def checkContext (formula : List Char) : Context where
  formula := formula
  tokens := (tokenize isFunctionName (String.ofList formula)).toArray
  table := .ofCells [] [] none

/-- Some live reading over an empty window comes back from a token. -/
def Checkable (formula : List Char) (p : Nat) : Prop :=
  ∃ depth scope s v s', s.position = p ∧
    expression depth .live scope (checkContext formula) s = .ok v s'

/-- A reading about whose values nothing is known. -/
def Side.of (c : Context) (excuses : Fault → Prop)
    (numeric : ∀ cause, excuses (.numeric cause)) : Side where
  context := c
  Good _ := True
  Excuses := excuses
  null := trivial
  bool _ := trivial
  text _ := trivial
  array _ _ := trivial
  lambda _ _ := trivial
  numeral _ := trivial
  found _ := trivial
  negate _ := trivial
  arithmetic {op a b} _ _ := by
    cases Formula.arithmetic op a b with
    | ok v => trivial
    | error cause => exact numeric cause
  comparison {op a b} _ _ := by
    cases Formula.comparison op a b with
    | ok result => trivial
    | error cause => exact numeric cause
  percent {n} _ := by
    cases Formula.percent n with
    | ok v => trivial
    | error cause => exact numeric cause

namespace Side.Alone

variable {A : Side} {nested : Nested} {scope : Scope}
  (body : ∀ scope s fault s', nested.body scope A.context s = .error fault s' → A.Excuses fault)
  (pastEnd : A.Excuses .pastLastToken)
  (mismatch : ∀ position, A.Excuses (.malformed .lambdaEndsElsewhere position))

include body pastEnd mismatch

theorem callLambda (f : Lambda) (argument : Value) :
    A.Alone (fun _ => True) (Rule.callLambda nested scope f argument) := by
  have inner : A.Alone (fun _ => True)
      (Eval.elsewhere f.start (nested.body ((f.parameter, argument) :: scope))) := by
    intro s
    unfold Eval.elsewhere
    cases hr : nested.body ((f.parameter, argument) :: scope) A.context
      { s with position := f.start } with
    | ok v s' => exact ⟨trivial, rfl⟩
    | error fault s' => exact body _ _ _ _ hr
  have tokenAt : ∀ i, A.Alone (fun _ => True) (Eval.tokenAt i) := by
    intro i s
    rw [run_tokenAt]
    cases A.context.tokens[i]? with
    | none => exact pastEnd
    | some token => exact ⟨trivial, rfl⟩
  apply bind inner
  rintro ⟨v, stop⟩ _
  dsimp only
  split
  · apply bind (tokenAt stop)
    intro token _
    exact bind (R := fun _ => True) (throw (mismatch _)) fun _ _ => pure trivial
  · exact pure trivial

theorem mapLambda (f : Lambda) (items : List Value) :
    A.Alone (fun _ => True) (items.mapM (Rule.callLambda nested scope f)) := by
  induction items with
  | nil => exact pure trivial
  | cons v rest ih =>
    rw [List.mapM_cons]
    apply bind (callLambda body pastEnd mismatch f v)
    intro u _
    apply bind ih
    intro us _
    exact pure trivial

end Side.Alone

/-- An evaluation that comes back over an empty window, and an evaluation of the same tokens that
must not complain of a number of arguments. -/
def checked (formula : List Char) (c : Context)
    (tokens : c.tokens = (checkContext formula).tokens) : Pair where
  left := .of (checkContext formula) (fun _ => True) fun _ => trivial
  right := .of c (fun fault => ¬ fault.IsArity) fun _ => nofun
  tokens := tokens

section

variable {formula : List Char} {c : Context} (tokens : c.tokens = (checkContext formula).tokens)

/-- A function of the library that does not complain in the check does not complain of as many other
arguments. -/
theorem together_library {α : Type} {f : List Value → Except Fault α} (counts : Counts f)
    {args args' : List Value} (same : args.length = args'.length) :
    (checked formula c tokens).Together (fun _ _ => True) (Eval.orFault (f args))
      (Eval.orFault (f args')) := by
  intro s t sameToken
  cases hl : f args with
  | error fault => exact .left trivial
  | ok a =>
    cases hr : f args' with
    | ok b => exact .ok trivial sameToken
    | error fault =>
      apply Pair.Ends.right
      intro arity
      have complains := counts args' args same.symm fault arity hr
      rw [hl] at complains
      cases complains

theorem together_applyFunction {nested nested' : Nested}
    (body : ∀ scope t fault t', nested'.body scope c t = .error fault t' → ¬ fault.IsArity)
    {scope scope' : Scope} {function : String} {args args' : List Value}
    (same : args.length = args'.length) :
    (checked formula c tokens).Together (checked formula c tokens).Good
      (Rule.applyFunction nested scope function args)
      (Rule.applyFunction nested' scope' function args') := by
  let w := checked formula c tokens
  unfold Rule.applyFunction
  apply Pair.Together.ite
  · apply Pair.Together.bind (together_library tokens Library.counts_mapArguments same)
    rintro ⟨items, f⟩ ⟨items', f'⟩ _
    -- The two sides may map different numbers of items, so their calls cannot be paired.
    have here : w.left.Alone (fun _ => True) (items.mapM (Rule.callLambda nested scope f)) :=
      .mapLambda (fun _ _ _ _ _ => trivial) trivial (fun _ => trivial) f items
    have excused : ∀ fault : Fault, ¬ fault.IsArity → w.right.Excuses fault := fun _ h => h
    have there : w.right.Alone (fun _ => True)
        (items'.mapM (Rule.callLambda nested' scope' f')) :=
      .mapLambda body (excused _ nofun) (fun _ => excused _ nofun) f' items'
    apply Pair.Together.bind (.alone here there)
    intro vs vs' _
    exact .alone .newArray .newArray
  -- The answers themselves differ, as one side has no data; nothing is asked of them.
  · cases Builtin.ofName? function with
    | none => exact .throw
    | some builtin =>
      apply Pair.Together.bind (together_library tokens builtin.counts_apply same)
      intro answer answer' _
      have answered : ∀ (A : Side), (∀ v, A.Good v) → ∀ answer,
          A.Alone A.Good (Eval.ofAnswer answer) := by
        intro A good answer
        cases answer with
        | value v => exact .pure (good v)
        | newArray items => exact .newArray
      exact .alone (answered w.left (fun _ => trivial) answer)
        (answered w.right (fun _ => trivial) answer')

/-- A body that can be checked, and a body that is to blame and has its faults replaced, do not
complain of a number of arguments. -/
theorem uncomplaining_called {m : Eval Value} {blamed : Nat → Prop} [DecidablePred blamed]
    (checkable : ∀ p, ¬ blamed p → Checkable formula p)
    (together : ∀ depth scope, (checked formula c tokens).Together
      (checked formula c tokens).Good (expression depth .live scope) m)
    {t t' : State} {fault : Fault}
    (h : (Bodies.renaming blamed fun _ => .notALambda).called m c t = .error fault t') :
    ¬ fault.IsArity := by
  unfold Bodies.renaming at h
  dsimp only at h
  split at h
  · unfold renamed at h
    cases hr : m c t with
    | ok v s =>
      rw [hr] at h
      cases h
    | error cause s =>
      rw [hr] at h
      cases h
      exact nofun
  · obtain ⟨depth, scope, s, v, s', place, comesBack⟩ := checkable _ ‹_›
    have ends := together depth scope s t place.symm
    change (checked formula c tokens).Ends _
      (expression depth .live scope (checkContext formula) s) (m c t) at ends
    rw [comesBack, h] at ends
    cases ends with
    | right uncomplaining => exact uncomplaining

/-- The check and an evaluation in which the calls that are to blame have their faults replaced. -/
theorem together_expressionThrough {blamed : Nat → Prop} [DecidablePred blamed]
    (checkable : ∀ p, ¬ blamed p → Checkable formula p) (depth depth' : Nat) (mode : Mode)
    (scope scope' : Scope) :
    (checked formula c tokens).Together (checked formula c tokens).Good
      (expression depth mode scope)
      (expressionThrough (.renaming blamed fun _ => .notALambda) depth' mode scope') := by
  let w := checked formula c tokens
  have keeps : ∀ scope scope', w.Keeps scope scope' :=
    fun _ _ => ⟨fun _ _ => trivial, fun _ _ => trivial⟩
  have levels : ∀ depth depth', w.Levels depth depth' :=
    fun _ _ => .inr ⟨fun _ => trivial, Fault.not_isArity_tooDeep⟩
  -- On the levels of the evaluation: the check is quantified over, as a body that was checked
  -- may have been checked with other levels and another scope than it is called with.
  induction depth' using Nat.strongRecOn generalizing depth mode scope scope' with
  | ind depth' ih =>
    match mode, depth, depth' with
    | .dry, depth, depth' =>
      rw [expressionThrough]
      exact .dry (levels depth depth') (keeps scope scope')
    | .live, 0, depth' =>
      intro s t same
      exact .left trivial
    | .live, depth + 1, 0 =>
      intro s t same
      exact .right (Fault.not_isArity_tooDeep c.maxDepth)
    | .live, depth + 1, depth' + 1 =>
      rw [expression_succ, expressionThrough_succ]
      let nested : Nested :=
        { expression := expression depth, body := expression (depth - 1) .live }
      let bodies : Bodies := .renaming blamed fun _ => .notALambda
      let nested' : Nested :=
        { expression := expressionThrough bodies depth'
          body := fun scope => bodies.called (expressionThrough bodies (depth' - 1) .live scope) }
      have body : ∀ scope t fault t', nested'.body scope c t = .error fault t' →
          ¬ fault.IsArity := by
        intro scope t fault t' h
        refine uncomplaining_called tokens checkable (fun depth inner => ?_) h
        exact ih (depth' - 1) (by omega) depth .live inner scope
      have nests : w.Nests (fun _ => True) nested nested' := {
        dry := trivial
        expression := fun _ _ => ih depth' (by omega) depth _ _ _
        apply := fun _ same => together_applyFunction tokens body same }
      exact nests.compared trivial (keeps scope scope')

theorem together_readAllThrough {blamed : Nat → Prop} [DecidablePred blamed]
    (checkable : ∀ p, ¬ blamed p → Checkable formula p) (depth depth' : Nat)
    (scope scope' : Scope) :
    (checked formula c tokens).Together (checked formula c tokens).Good
      (readAll depth .live scope)
      (readAllThrough (.renaming blamed fun _ => .notALambda) depth' scope') := by
  apply Pair.Together.bind (together_expressionThrough tokens checkable depth depth' .live _ _)
  intro u v good
  apply Pair.Together.after .peek
  intro token
  exact .ite .throw (.pure good)

end

/-! ### Valid formulas -/

/-- Where no lambda is called, no call is to blame. -/
theorem FaultsInCall.not_callsNoLambda {blamed : Nat → Prop} [DecidablePred blamed] {c : Context}
    {scope : Scope} (h : FaultsInCall blamed c scope) : ¬ CallsNoLambda c scope := by
  intro callsNone
  have ends : ∀ other, ∃ s, readAll c.maxDepth.toNat .live scope c (.start scope) =
      .error other s := by
    intro other
    let bodies : CallBodies :=
      { toBodies := .renaming blamed fun _ => other, skips := fun _ _ => rfl }
    rw [← callsNone.readAllThrough bodies]
    exact h other
  obtain ⟨s, first⟩ := ends .notALambda
  obtain ⟨t, second⟩ := ends .noLambdaCalls
  cases first.symm.trans second

open Classical in
/-- An evaluation of a valid formula that ends with a complaint of a number of arguments ends so in
the body of a lambda, when it is called, and in a body that no live reading over an empty window
comes back from. In particular it calls a lambda. -/
theorem arity_fault_of_valid {written : Datum} {v : Validation} (h : validate written = .ok v)
    (valid : v.valid = true) (e : Evaluator) {fault : Fault} (arity : fault.IsArity)
    (faults : (evaluate (e.context (formulaChars (writtenText written))) .live []).outcome =
      .error fault) :
    FaultsInCall (fun p => ¬ Checkable (formulaChars (writtenText written)) p)
        (e.context (formulaChars (writtenText written))) [] ∧
      ¬ CallsNoLambda (e.context (formulaChars (writtenText written))) [] := by
  let chars := formulaChars (writtenText written)
  let c := e.context chars
  have tokens : c.tokens = (checkContext chars).tokens := rfl
  let w := checked chars c tokens
  have inCall : FaultsInCall (fun p => ¬ Checkable chars p) c [] := by
    rcases faultsInCall_or (fun p => ¬ Checkable chars p) faults with inCall | elsewhere
    · exact inCall
    -- The complaint stays when the faults of those bodies are replaced, but then there is none.
    · obtain ⟨s, complains⟩ := elsewhere .notALambda
      obtain ⟨value, checks⟩ := ok_of_valid h valid
      have checkable : ∀ p, ¬ ¬ Checkable chars p → Checkable chars p := fun p => not_not.mp
      have ends : w.Ends w.Good (readAll 64 .live [] (checkContext chars) (.start []))
          (readAllThrough (.renaming (fun p => ¬ Checkable chars p) fun _ => .notALambda)
            c.maxDepth.toNat [] c (.start [])) :=
        together_readAllThrough tokens checkable 64 c.maxDepth.toNat [] [] _ _ rfl
      change (evaluate (checkContext chars) .live []).outcome = .ok value at checks
      rw [evaluate_eq] at checks
      change (Evaluation.ofEnd (readAll 64 .live [] (checkContext chars) (.start []))).outcome =
        .ok value at checks
      rw [complains] at ends
      generalize readAll 64 .live [] (checkContext chars) (.start []) = check at ends checks
      cases ends with
      | right uncomplaining => exact absurd arity uncomplaining
      | fault => cases checks
      | left => cases checks
  exact ⟨inCall, inCall.not_callsNoLambda⟩

/-- Over an empty window the array is empty and the body is not evaluated. -/
def doubledAbs : String := "MAP(SEQUENCE(Sales), LAMBDA(x, ABS(x, x)))"

/-- An evaluator over one quarter with sales of two. -/
def twoSales : Evaluator where
  settings := {}
  selected := []
  table :=
    { cells := [("Sep 2024", [("Sales", some 2)])], quarters := ["Sep 2024"], windowSize := 1 }

theorem validate_eq_ok {written : Datum} {chars : List Char} {value : Value}
    (hchars : formulaChars (writtenText written) = chars) (notEmpty : chars ≠ [])
    (known : ∀ name ∈ extractFunctions (String.ofList chars), isFunctionName name = true)
    (checks : (dryCheck chars).outcome = .ok value) :
    ∃ v, validate written = .ok v ∧ v.valid = true := by
  have noneUnknown : (extractFunctions (String.ofList chars)).filter
      (fun name => !isFunctionName name) = [] := by
    apply List.filter_eq_nil_iff.mpr
    intro name hname
    simp [known name hname]
  have isNotEmpty : chars.isEmpty = false := List.isEmpty_eq_false_iff.mpr notEmpty
  unfold validate
  simp only [hchars, isNotEmpty, noneUnknown, checks]
  exact ⟨_, rfl, rfl⟩

theorem valid_doubledAbs : ∃ v, validate (.text doubledAbs) = .ok v ∧ v.valid = true := by
  have hchars : formulaChars (writtenText (.text doubledAbs)) = doubledAbs.toList := by
    decide +kernel
  have known : ∀ name ∈ extractFunctions (String.ofList doubledAbs.toList),
      isFunctionName name = true := by
    intro name hname
    unfold extractFunctions at hname
    rw [List.mem_mergeSort] at hname
    revert name
    decide +kernel
  have comesBack : (dryCheck doubledAbs.toList).outcome.toOption.isSome = true := by
    decide +kernel
  obtain ⟨value, checks⟩ := exists_value comesBack
  exact validate_eq_ok hchars (by decide) known checks

/-- The fault that an outcome is, if it is one. -/
def faultOf? : Except Fault Value → Option Fault
  | .ok _ => none
  | .error fault => some fault

theorem eq_error_of_faultOf? {outcome : Except Fault Value} {fault : Fault}
    (h : faultOf? outcome = some fault) : outcome = .error fault := by
  cases outcome with
  | ok v => cases h
  | error cause => exact congrArg Except.error (Option.some.inj h)

theorem faults_doubledAbs :
    (evaluate (twoSales.context (formulaChars (writtenText (.text doubledAbs)))) .live []).outcome =
      .error (.arity "ABS" (.exactly 1) 2) :=
  eq_error_of_faultOf? (by decide +kernel)

open Classical in
theorem arity_fault_of_valid_doubledAbs :
    ∃ v, validate (.text doubledAbs) = .ok v ∧ v.valid = true ∧
      FaultsInCall (fun p => ¬ Checkable (formulaChars doubledAbs) p)
        (twoSales.context (formulaChars doubledAbs)) [] ∧
      ¬ CallsNoLambda (twoSales.context (formulaChars doubledAbs)) [] := by
  obtain ⟨v, h, valid⟩ := valid_doubledAbs
  exact ⟨v, h, valid,
    arity_fault_of_valid h valid twoSales (.arity "ABS" (.exactly 1) 2) faults_doubledAbs⟩

/-- A formula that is found valid may complain of a number of arguments over data. -/
theorem valid_formula_with_arity_fault :
    ∃ v, validate (.text doubledAbs) = .ok v ∧ v.valid = true ∧
      (evaluate (twoSales.context (formulaChars (writtenText (.text doubledAbs)))) .live
        []).outcome = .error (.arity "ABS" (.exactly 1) 2) := by
  obtain ⟨v, h, valid⟩ := valid_doubledAbs
  exact ⟨v, h, valid, faults_doubledAbs⟩

end Quarterly.Formula
