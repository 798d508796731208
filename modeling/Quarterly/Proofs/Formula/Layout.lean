import Quarterly.Proofs.Formula.PairLogic
import Quarterly.Proofs.Formula.Tree

/-!
# Layout does not matter

Where the tokens of a formula stand, and the text that they were read from, make no difference to an
evaluation. The text is read for the wording of references with brackets, and the places for the
faults that tell where a formula is malformed; what is looked up, in which order and what it comes to
depends on the kinds and the texts of the tokens only. Two evaluations of the same words are
therefore the same apart from layout (`evaluate_relaid`), the stretches of lambdas included.
-/

namespace Quarterly.Formula

/-! ### What is left without layout -/

/-- A substitution without the wording of its reference. -/
def Substitution.unworded (s : Substitution) : Substitution := { s with reference := "" }

/-- A step without the wording of a reference. -/
def Step.unworded : Step → Step
  | lookup s => lookup s.unworded
  | step => step

/-- A fault without the place where a formula is malformed. -/
def Fault.unplaced : Fault → Fault
  | malformed problem _ => malformed problem 0
  | fault => fault

namespace Journal

/-- A journal without the wordings of references. -/
def unworded (j : Journal) : Journal :=
  { j with
    substitutions := j.substitutions.map Substitution.unworded
    steps := j.steps.map Step.unworded }

variable (j : Journal) (c : Context)

theorem unworded_lookedUp (metric : String) (index : Int) (reference : String) :
    (j.lookedUp c metric index reference).unworded = j.unworded.lookedUp c metric index "" := by
  unfold unworded lookedUp
  cases c.tracing <;> simp [Substitution.unworded, Step.unworded]

theorem unworded_stepped (mode : Mode) (step : Step) :
    (j.stepped c mode step).unworded = j.unworded.stepped c mode step.unworded := by
  unfold unworded stepped
  split <;> simp

end Journal

/-- A state without the wordings of references. -/
def State.unworded (s : State) : State := { s with journal := s.journal.unworded }

theorem State.unworded_eq_iff {s t : State} :
    t.unworded = s.unworded ↔ t.position = s.position ∧ t.nextIdentity = s.nextIdentity ∧
      t.journal.unworded = s.journal.unworded := by
  simp [State.unworded]

/-- What an evaluation comes to apart from layout. -/
def Evaluation.apartFromLayout (run : Evaluation) : Evaluation where
  outcome := run.outcome.mapError Fault.unplaced
  position := run.position
  journal := run.journal.unworded

/-! ### Two layouts -/

/-- The same work on other tokens of another text. -/
def Context.relaid (c : Context) (formula : List Char) (tokens : Array Token) : Context :=
  { c with formula, tokens }

/-- Runs in two layouts end alike: with related results or the same fault, apart from layout. -/
inductive EndsLaidOut {α β : Type} (R : α → β → Prop) :
    EStateM.Result Fault State α → EStateM.Result Fault State β → Prop where
  | ok {a b s t} (h : R a b) (same : t.unworded = s.unworded) : EndsLaidOut R (.ok a s) (.ok b t)
  | error {fault fault' s t} (h : fault'.unplaced = fault.unplaced)
      (same : t.unworded = s.unworded) : EndsLaidOut R (.error fault s) (.error fault' t)

/-- A context and a second layout of its tokens. -/
structure Layout where
  context : Context
  formula : List Char
  tokens : Array Token
  same : tokens.toList.map Token.word = context.tokens.toList.map Token.word

namespace Layout

variable (l : Layout) {α β γ δ : Type}

/-- The context in the second layout. -/
def relaid : Context := l.context.relaid l.formula l.tokens

/-- Runs from states that are the same but for wordings end alike. -/
def Alike (R : α → β → Prop) (m : Eval α) (n : Eval β) : Prop :=
  ∀ s t : State, t.unworded = s.unworded → EndsLaidOut R (m l.context s) (n l.relaid t)

theorem getElem?_word (i : Nat) :
    l.tokens[i]?.map Token.word = l.context.tokens[i]?.map Token.word := by
  have same := congrArg (·[i]?) l.same
  simpa using same

theorem size_tokens : l.tokens.size = l.context.tokens.size := by
  simpa using congrArg List.length l.same

namespace Alike

variable {l}

theorem pure {R : α → β → Prop} {a : α} {b : β} (h : R a b) : l.Alike R (pure a) (pure b) := by
  intro s t same
  exact .ok h same

theorem throw {R : α → β → Prop} {fault fault' : Fault} (h : fault'.unplaced = fault.unplaced) :
    l.Alike R (throw fault : Eval α) (throw fault' : Eval β) := by
  intro s t same
  exact .error h same

theorem bind {R : α → β → Prop} {Q : γ → δ → Prop} {m : Eval α} {n : Eval β} {f : α → Eval γ}
    {g : β → Eval δ} (hm : l.Alike R m n) (hf : ∀ a b, R a b → l.Alike Q (f a) (g b)) :
    l.Alike Q (m >>= f) (n >>= g) := by
  intro s t same
  have first := hm s t same
  rw [run_bind, run_bind]
  generalize m l.context s = here at first
  generalize n l.relaid t = there at first
  cases first with
  | ok h same => exact hf _ _ h _ _ same
  | error h same => exact .error h same

/-- Computations that go on with the same result. -/
theorem after {Q : γ → δ → Prop} {m n : Eval α} {f : α → Eval γ} {g : α → Eval δ}
    (hm : l.Alike Eq m n) (hf : ∀ a, l.Alike Q (f a) (g a)) : l.Alike Q (m >>= f) (n >>= g) := by
  apply bind hm
  rintro a _ rfl
  exact hf a

/-! The primitives. -/

theorem tokenAt (i : Nat) : l.Alike Token.Alike (Eval.tokenAt i) (Eval.tokenAt i) := by
  intro s t same
  have word := l.getElem?_word i
  have text : l.relaid.tokens = l.tokens := rfl
  rw [run_tokenAt, run_tokenAt, text]
  cases here : l.context.tokens[i]? with
  | none =>
    rw [here] at word
    rw [Option.map_eq_none_iff.mp word]
    exact .error rfl same
  | some token =>
    rw [here] at word
    obtain ⟨token', there, words⟩ := Option.map_eq_some_iff.mp word
    rw [there]
    exact .ok ⟨(congrArg Word.kind words).symm, (congrArg Word.text words).symm⟩ same

theorem position : l.Alike Eq Eval.position Eval.position := by
  intro s t same
  exact .ok (State.unworded_eq_iff.mp same).1.symm same

theorem tokensLeft : l.Alike Eq Eval.tokensLeft Eval.tokensLeft := by
  intro s t same
  refine .ok ?_ same
  change l.context.tokens.size - s.unworded.position = l.tokens.size - t.unworded.position
  rw [same, l.size_tokens]

theorem setPosition (i : Nat) : l.Alike Eq (Eval.setPosition i) (Eval.setPosition i) := by
  intro s t same
  exact .ok rfl (congrArg (fun u : State => { u with position := i }) same)

theorem newIdentity : l.Alike Eq Eval.newIdentity Eval.newIdentity := by
  intro s t same
  obtain ⟨-, identity, -⟩ := State.unworded_eq_iff.mp same
  exact .ok identity.symm
    (congrArg (fun u : State => { u with nextIdentity := u.nextIdentity + 1 }) same)

theorem noteStep {mode : Mode} {step : Step} :
    l.Alike Eq (Eval.noteStep mode step) (Eval.noteStep mode step) := by
  intro s t same
  rw [run_noteStep, run_noteStep]
  refine .ok rfl ?_
  have stepped (u : State) : ({ u with journal := u.journal.stepped l.context mode step } :
      State).unworded = { u.unworded with
        journal := u.unworded.journal.stepped l.context mode step.unworded } := by
    simp only [State.unworded, Journal.unworded_stepped]
  change State.unworded { t with journal := t.journal.stepped l.context mode step } = _
  rw [stepped, stepped, same]

theorem notice {n : Notice} : l.Alike Eq (Eval.notice n) (Eval.notice n) := by
  intro s t same
  exact .ok rfl (congrArg (fun u : State =>
    { u with journal := { u.journal with notices := u.journal.notices.push n } }) same)

/-- What is looked up does not depend on how it is worded. -/
theorem lookup {mode : Mode} {metric : String} {index : Int} {reference reference' : String} :
    l.Alike Eq (Rule.lookup mode metric index reference)
      (Rule.lookup mode metric index reference') := by
  intro s t same
  cases mode with
  | dry => exact .ok rfl same
  | live =>
    rw [run_lookup_live, run_lookup_live]
    refine .ok rfl ?_
    have lookedUp (u : State) (reference : String) :
        ({ u with journal := u.journal.lookedUp l.context metric index reference } :
          State).unworded = { u.unworded with
            journal := u.unworded.journal.lookedUp l.context metric index "" } := by
      simp only [State.unworded, Journal.unworded_lookedUp]
    change State.unworded
      { t with journal := t.journal.lookedUp l.context metric index reference' } = _
    rw [lookedUp, lookedUp, same]

theorem elsewhere {start : Nat} {R : α → β → Prop} {m : Eval α} {n : Eval β} (h : l.Alike R m n) :
    l.Alike (fun r r' => R r.1 r'.1 ∧ r.2 = r'.2) (Eval.elsewhere start m)
      (Eval.elsewhere start n) := by
  intro s t same
  have ends := h { s with position := start } { t with position := start }
    (congrArg (fun u : State => { u with position := start }) same)
  have back {s' t' : State} (inner : t'.unworded = s'.unworded) :
      State.unworded { t' with position := t.position } =
        State.unworded { s' with position := s.position } := by
    rw [(State.unworded_eq_iff.mp same).1]
    exact congrArg (fun u : State => { u with position := s.position }) inner
  unfold Eval.elsewhere
  generalize m l.context { s with position := start } = here at ends
  generalize n l.relaid { t with position := start } = there at ends
  cases ends with
  | ok ha inner => exact .ok ⟨ha, (State.unworded_eq_iff.mp inner).1.symm⟩ (back inner)
  | error hf inner => exact .error hf (back inner)

theorem skip {R : Value → Value → Prop} {nested nested' : Nested} {scope scope' : Scope}
    (h : l.Alike R (nested.expression .dry scope) (nested'.expression .dry scope')) :
    l.Alike Eq (Rule.skip nested scope) (Rule.skip nested' scope') := by
  intro s t same
  have ends := h s t same
  obtain ⟨position, identity, -⟩ := State.unworded_eq_iff.mp same
  rw [run_skip, run_skip, position, identity]
  generalize nested.expression .dry scope l.context s = here at ends
  generalize nested'.expression .dry scope' l.relaid t = there at ends
  cases ends with
  | ok _ inner =>
    exact .ok (State.unworded_eq_iff.mp inner).1.symm (congrArg (fun u : State =>
      { u with position := s.position, nextIdentity := s.nextIdentity }) inner)
  | error hf inner =>
    exact .error hf (congrArg (fun u : State => { u with position := s.position }) inner)

/-! The same computation on values in both layouts. -/

theorem orFault {x : Except Fault α} : l.Alike Eq (Eval.orFault x) (Eval.orFault x) := by
  cases x with
  | ok a => exact pure rfl
  | error fault => exact throw rfl

theorem orNumericFault {x : Except NumericFault α} :
    l.Alike Eq (Eval.orNumericFault x) (Eval.orNumericFault x) := by
  cases x with
  | ok a => exact pure rfl
  | error cause => exact throw rfl

theorem newArray {items : List Value} :
    l.Alike Eq (Eval.newArray items) (Eval.newArray items) :=
  after newIdentity fun _ => pure rfl

theorem percented {mode : Mode} {v : Value} :
    l.Alike Eq (Rule.percented mode v) (Rule.percented mode v) := by
  cases v with
  | number n =>
    apply after orNumericFault
    intro result
    exact after noteStep fun _ => pure rfl
  | _ => exact pure rfl

theorem answered {builtin : Builtin} {function : String} {args : List Value} :
    l.Alike Eq (Rule.answered builtin function args) (Rule.answered builtin function args) := by
  have answer : l.Alike Eq (Eval.orFault (builtin.apply args) >>= Eval.ofAnswer)
      (Eval.orFault (builtin.apply args) >>= Eval.ofAnswer) := by
    apply after orFault
    intro answer
    cases answer with
    | value v => exact pure rfl
    | newArray items => exact newArray
  apply after answer
  intro result
  exact after noteStep fun _ => pure rfl

end Alike

/-- Evaluations in two layouts. -/
def logic : TwinLogic where
  World := Unit
  order := PUnit.instLinearOrder.toPreorder
  Holds _ R := l.Alike (R ())
  Related _ := Eq
  Keeps _ := Eq
  Good _ _ := True
  pure := .pure
  bind hm hf := .bind hm fun a b => hf () a b le_rfl
  fault := .throw rfl
  malformed := .throw rfl
  tokenAt := .tokenAt
  tokensLeft := .tokensLeft
  position := .position
  setPosition := .setPosition
  skip := .skip
  related_mono _ h := h
  keeps_mono _ h := h
  keeps_cons := by
    rintro _ _ _ _ _ _ rfl rfl
    rfl
  null := rfl
  text := rfl
  numeral := rfl
  newArray same := by
    obtain rfl := List.forall₂_eq_eq_eq ▸ same
    exact .newArray
  newLambda := .after .newIdentity fun _ => .pure rfl
  name := by
    rintro _ mode scope _ word rfl
    unfold Rule.name
    cases scope.lookup word with
    | some v => exact .pure rfl
    | none => exact .lookup
  bracketed := fun {_ _ _ _ _ _ _ _} s t same => Alike.lookup s t same
  complain same := by
    obtain rfl := List.forall₂_eq_eq_eq ▸ same
    exact .after .notice fun _ => .noteStep
  negated := by
    rintro _ _ _ _ rfl
    exact .after .noteStep fun _ => .pure rfl
  percented := by
    rintro _ _ _ _ rfl
    exact .percented
  combine := by
    rintro _ _ _ _ _ _ _ rfl rfl
    exact .after .orNumericFault fun _ => .after .noteStep fun _ => .pure rfl
  comparedTo := by
    rintro _ _ _ _ _ _ _ rfl rfl
    exact .after .orNumericFault fun _ => .after .noteStep fun _ => .pure rfl
  related_iff := by simp
  toItems _ _ _ := trivial
  tooDeep := fun {_ _} _ _ same => .error rfl same
  elsewhere := .elsewhere
  mapped _ := .noteStep
  answered _ _ := .answered

end Layout

/-- Tokens of the same kinds and texts in the same order, wherever they stand and whatever text they
were read from, evaluate to the same apart from layout: to the same value or the same fault, ending
at the same token, with the same quarters, look-ups, steps and notices in the same order. -/
theorem evaluate_relaid (c : Context) (formula : List Char) (tokens : Array Token)
    (same : tokens.toList.map Token.word = c.tokens.toList.map Token.word) (mode : Mode)
    (scope : Scope) :
    (evaluate (c.relaid formula tokens) mode scope).apartFromLayout =
      (evaluate c mode scope).apartFromLayout := by
  let l : Layout := ⟨c, formula, tokens, same⟩
  have alike : l.Alike Eq (readAll c.maxDepth.toNat mode scope)
      (readAll c.maxDepth.toNat mode scope) :=
    l.logic.readAll c.maxDepth.toNat (w := ()) rfl
  have ends := alike (.start scope) (.start scope) rfl
  rw [evaluate_eq, evaluate_eq]
  change Evaluation.apartFromLayout (.ofEnd (readAll c.maxDepth.toNat mode scope l.relaid _)) = _
  change EndsLaidOut Eq (readAll c.maxDepth.toNat mode scope c (.start scope)) _ at ends
  generalize readAll c.maxDepth.toNat mode scope c (.start scope) = here at ends ⊢
  generalize readAll c.maxDepth.toNat mode scope l.relaid (.start scope) = there at ends ⊢
  cases ends with
  | ok h same =>
    obtain ⟨position, -, journal⟩ := State.unworded_eq_iff.mp same
    simp only [Evaluation.ofEnd, Evaluation.apartFromLayout, h, position, journal]
  | error h same =>
    obtain ⟨position, -, journal⟩ := State.unworded_eq_iff.mp same
    simp only [Evaluation.ofEnd, Evaluation.apartFromLayout, Except.mapError, h, position, journal]

/-- The tokens of `-Sales[Q2]`. -/
def negatedSales : Context where
  formula := "-Sales[Q2]".toList
  tokens := (tokenize isFunctionName "-Sales[Q2]").toArray
  table := ⟨[], [], 0⟩
  tracing := true

/-- With other blanks between its tokens. -/
theorem evaluate_relaid_negatedSales :
    let tokens := (tokenize isFunctionName " - Sales [ Q2]").toArray
    tokens.toList.map Token.word = negatedSales.tokens.toList.map Token.word ∧
      (evaluate (negatedSales.relaid " - Sales [ Q2]".toList tokens) .live []).apartFromLayout =
        (evaluate negatedSales .live []).apartFromLayout := by
  intro tokens
  have same : tokens.toList.map Token.word = negatedSales.tokens.toList.map Token.word := by
    decide +kernel
  exact ⟨same, evaluate_relaid negatedSales _ tokens same .live []⟩

end Quarterly.Formula
