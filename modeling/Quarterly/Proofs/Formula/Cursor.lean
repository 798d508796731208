import Quarterly.Proofs.Formula.Logic

/-!
# Where readings end

A reading that comes back has read a phrase of the grammar, and phrases end where the tokens say.
So the values in scope, the table, the limits and the mode of a reading have no part in where it
ends. In particular the body of a lambda ends at every call where it ended when it was skipped: the
check after a call never fails.
-/

namespace Quarterly.Formula

/-- The body of a lambda is an expression between the places where it was recorded. -/
def Lambda.Recorded (tokens : Array Token) (f : Lambda) : Prop :=
  Reads tokens .expression f.start f.stop

/-- What holds after every run that starts at a token: of its result and the token where it ends,
or of its fault. -/
def Runs (tokens : Array Token) (faults : Fault → Prop) {α : Type} (p : Nat)
    (Q : α → Nat → Prop) (m : Eval α) : Prop :=
  ∀ (c : Context) (s : State), c.tokens = tokens → s.position = p →
    match m c s with
    | .ok a s' => Q a s'.position
    | .error fault _ => faults fault

namespace Runs

variable {tokens : Array Token} {faults : Fault → Prop} {α β : Type} {p : Nat}

theorem bind {R : α → Nat → Prop} {Q : β → Nat → Prop} {m : Eval α} {f : α → Eval β}
    (hm : Runs tokens faults p R m) (hf : ∀ a q, R a q → Runs tokens faults q Q (f a)) :
    Runs tokens faults p Q (m >>= f) := by
  intro c s hc hs
  have run := hm c s hc hs
  rw [run_bind]
  cases h : m c s with
  | ok a s' =>
    rw [h] at run
    exact hf a s'.position run c s' hc rfl
  | error fault s' =>
    rw [h] at run
    exact run

theorem tokenAt {i : Nat} {Q : Token → Nat → Prop} (pastEnd : faults .pastLastToken)
    (h : ∀ token, tokens[i]? = some token → Q token p) :
    Runs tokens faults p Q (Eval.tokenAt i) := by
  rintro c s rfl rfl
  rw [run_tokenAt]
  cases ht : c.tokens[i]? with
  | none => exact pastEnd
  | some token => exact h token ht

theorem lookup {P : Lambda → Prop} {Q : Value → Nat → Prop} {mode : Mode} {metric : String}
    {index : Int} {reference : String} (h : ∀ v : Value, v.EveryLambda P → Q v p) :
    Runs tokens faults p Q (Rule.lookup mode metric index reference) := by
  rintro c s rfl rfl
  cases mode with
  | live =>
    rw [run_lookup_live]
    exact h _ (.scalar (isScalar_lookupValue _))
  | dry => exact h _ (.scalar trivial)

theorem elsewhere {start : Nat} {R : α → Nat → Prop} {Q : α × Nat → Nat → Prop}
    {inner : Eval α} (hi : Runs tokens faults start R inner)
    (h : ∀ a stop, R a stop → Q (a, stop) p) :
    Runs tokens faults p Q (Eval.elsewhere start inner) := by
  rintro c s hc rfl
  have run := hi c { s with position := start } hc rfl
  unfold Eval.elsewhere
  cases hr : inner c { s with position := start } with
  | ok a s' =>
    rw [hr] at run
    exact h a s'.position run
  | error fault s' =>
    rw [hr] at run
    exact run

theorem skip {R : Value → Nat → Prop} {Q : Nat → Nat → Prop} {nested : Nested} {scope : Scope}
    (hd : Runs tokens faults p R (nested.expression .dry scope))
    (h : ∀ v stop, R v stop → Q stop p) : Runs tokens faults p Q (Rule.skip nested scope) := by
  rintro c s hc rfl
  have run := hd c s hc rfl
  rw [run_skip]
  cases hr : nested.expression .dry scope c s with
  | ok v s' =>
    rw [hr] at run
    exact h v s'.position run
  | error fault s' =>
    rw [hr] at run
    exact run

/-- Readings one at a time. -/
def logic (P : Lambda → Prop) (faults : Fault → Prop)
    (ordinary : ∀ fault : Fault, fault.Ordinary → faults fault)
    (made : ∀ {p q parameter}, Reads tokens .expression p q → P ⟨parameter, p, q⟩)
    (mismatch : ∀ {stop f position}, P f → Reads tokens .expression f.start stop →
      stop ≠ f.stop → faults (.malformed .lambdaEndsElsewhere position)) :
    ReadingLogic tokens P where
  Admits := fun _ => True
  Holds := Runs tokens faults
  dry := trivial
  pure h := by
    rintro c s hc rfl
    exact h
  bind := bind
  fault h := fun _ _ _ _ => ordinary _ h
  tooDeep := fun _ _ _ _ => ordinary _ fun _ h => by cases h
  tokenAt := tokenAt (ordinary _ fun _ h => by cases h)
  tokensLeft h := by
    rintro c s hc rfl
    exact h _
  position h := by
    rintro c s hc rfl
    exact h
  formula h := fun c s hc hs => h c.formula c s hc hs
  setPosition h := fun _ _ _ _ => h
  newIdentity h := by
    rintro c s hc rfl
    exact h _
  noteStep _ _ h := by
    rintro c s hc rfl
    rw [run_noteStep]
    exact h
  noticeUnknown _ h := by
    rintro c s hc rfl
    exact h
  lookup _ := lookup
  elsewhere := elsewhere
  skip := skip
  made := made
  mismatch hf hr hne := fun _ _ _ _ => mismatch hf hr hne

end Runs

/-- A reading that comes back has read an expression. -/
theorem Reads.of_ok {n : Nat} {mode : Mode} {scope : Scope} {c : Context} {s s' : State}
    {v : Value} (h : expression n mode scope c s = .ok v s') :
    Reads c.tokens .expression s.position s'.position := by
  let L : ReadingLogic c.tokens fun _ => True :=
    Runs.logic _ (fun _ => True) (fun _ _ => trivial) (fun _ => trivial)
      fun _ _ _ => trivial
  have keeps : Keeps (fun _ => True) scope := fun _ _ => .of_forall (fun _ => trivial) _
  have run : Runs c.tokens (fun _ => True) s.position (L.Yields .expression s.position)
      (expression n mode scope) := L.expression n trivial keeps
  have result := run c s rfl rfl
  rw [h] at result
  exact result.1

/-- The logic of readings in which all lambdas are recorded. -/
def recordedLogic (tokens : Array Token) : ReadingLogic tokens (Lambda.Recorded tokens) :=
  Runs.logic _ Fault.Ordinary (fun _ h => h) (fun h => h) fun hf hr hne =>
    absurd (hr.unique hf) hne

/-- Readings in scopes of recorded lambdas yield recorded lambdas. -/
theorem recorded_of_ok {n : Nat} {mode : Mode} {scope : Scope} {c : Context} {s s' : State}
    {v : Value} (keeps : Keeps (Lambda.Recorded c.tokens) scope)
    (h : expression n mode scope c s = .ok v s') : v.EveryLambda (Lambda.Recorded c.tokens) := by
  have run : Runs c.tokens Fault.Ordinary s.position
      ((recordedLogic c.tokens).Yields .expression s.position) (expression n mode scope) :=
    (recordedLogic c.tokens).expression n trivial keeps
  have result := run c s rfl rfl
  rw [h] at result
  exact result.2

/-- Bodies of recorded lambdas end where they should. -/
theorem ordinary_of_error {n : Nat} {mode : Mode} {scope : Scope} {c : Context} {s s' : State}
    {fault : Fault} (keeps : Keeps (Lambda.Recorded c.tokens) scope)
    (h : expression n mode scope c s = .error fault s') : fault.Ordinary := by
  have run : Runs c.tokens Fault.Ordinary s.position
      ((recordedLogic c.tokens).Yields .expression s.position) (expression n mode scope) :=
    (recordedLogic c.tokens).expression n trivial keeps
  have result := run c s rfl rfl
  rwa [h] at result

theorem ordinary_of_evaluate {c : Context} {mode : Mode} {fault : Fault}
    (h : (evaluate c mode []).outcome = .error fault) : fault.Ordinary := by
  have run : Runs c.tokens Fault.Ordinary 0
      ((recordedLogic c.tokens).Yields .expression 0)
      (readAll c.maxDepth.toNat mode []) :=
    (recordedLogic c.tokens).readAll trivial .nil
  have result := run c (.start []) rfl rfl
  obtain ⟨s, hr, -⟩ := exists_run_of_fault h
  rw [hr] at result
  exact result

/-- Where a reading ends depends on the tokens and its start only. So every lambda met in an
evaluation from empty scopes is called with its body ending where it was recorded, whatever the
scope and the table of the call. -/
theorem cursor_independent_of_values :
    (∀ {c₁ c₂ : Context} {s₁ s₂ s₁' s₂' : State} {n₁ n₂ : Nat} {mode₁ mode₂ : Mode}
      {scope₁ scope₂ : Scope} {v₁ v₂ : Value},
      c₁.tokens = c₂.tokens → s₁.position = s₂.position →
      expression n₁ mode₁ scope₁ c₁ s₁ = .ok v₁ s₁' →
      expression n₂ mode₂ scope₂ c₂ s₂ = .ok v₂ s₂' → s₁'.position = s₂'.position) ∧
    (∀ {c : Context} {scope : Scope} {n : Nat} {mode : Mode} {s s' : State},
      Keeps (Lambda.Recorded c.tokens) scope →
      (∀ v, expression n mode scope c s = .ok v s' →
        v.EveryLambda (Lambda.Recorded c.tokens)) ∧
      ∀ fault, expression n mode scope c s = .error fault s' → fault.Ordinary) ∧
    (∀ {c : Context} {f : Lambda}, f.Recorded c.tokens →
      ∀ {n : Nat} {mode : Mode} {scope : Scope} {s s' : State} {v : Value},
      s.position = f.start → expression n mode scope c s = .ok v s' → s'.position = f.stop) ∧
    ∀ (c : Context) (mode : Mode) (position : Nat),
      (evaluate c mode []).outcome ≠ .error (.malformed .lambdaEndsElsewhere position) := by
  refine ⟨?_, ?_, ?_, ?_⟩
  · intro c₁ c₂ s₁ s₂ s₁' s₂' n₁ n₂ mode₁ mode₂ scope₁ scope₂ v₁ v₂ ht hp h₁ h₂
    have first := Reads.of_ok h₁
    rw [ht, hp] at first
    exact first.unique (Reads.of_ok h₂)
  · intro c scope n mode s s' keeps
    exact ⟨fun v h => recorded_of_ok keeps h, fun fault h => ordinary_of_error keeps h⟩
  · rintro c f hf n mode scope s s' v hs h
    have body := Reads.of_ok h
    rw [hs] at body
    exact body.unique hf
  · intro c mode position h
    exact ordinary_of_evaluate h position rfl

/-- A mapping whose lambda answers with its argument. -/
def mapping : Context where
  formula := "MAP(\"a\",LAMBDA(x,x))".toList
  tokens := #[⟨.function, "MAP", 0⟩, ⟨.leftParen, "(", 3⟩, ⟨.string, "a", 4⟩, ⟨.comma, ",", 7⟩,
    ⟨.function, "LAMBDA", 8⟩, ⟨.leftParen, "(", 14⟩, ⟨.identifier, "x", 15⟩, ⟨.comma, ",", 16⟩,
    ⟨.identifier, "x", 17⟩, ⟨.rightParen, ")", 18⟩, ⟨.rightParen, ")", 19⟩, ⟨.endMark, "", 20⟩]
  table := ⟨[], [], 0⟩

/-- Where a computation ends if it comes back. -/
def stopOf {α : Type} (m : Eval α) (c : Context) (s : State) : Option Nat :=
  match m c s with
  | .ok _ s' => some s'.position
  | .error _ _ => none

theorem ok_of_stopOf {α : Type} {m : Eval α} {c : Context} {s : State} {q : Nat}
    (h : stopOf m c s = some q) : ∃ a s', m c s = .ok a s' ∧ s'.position = q := by
  unfold stopOf at h
  split at h
  · exact ⟨_, _, ‹_›, Option.some.inj h⟩
  · cases h

theorem cursor_of_mapping :
    ∃ v₁ s₁ v₂ s₂ v₃ s₃,
      expression 3 .live [] mapping {} = .ok v₁ s₁ ∧
      expression 3 .dry [("x", .text "b")] mapping {} = .ok v₂ s₂ ∧
      s₁.position = s₂.position ∧ v₁.EveryLambda (Lambda.Recorded mapping.tokens) ∧
      Lambda.Recorded mapping.tokens ⟨"x", 8, 9⟩ ∧
      expression 1 .live [("x", .text "a")] mapping { position := 8 } = .ok v₃ s₃ ∧
      s₃.position = 9 ∧
      (evaluate mapping .live []).outcome ≠ .error (.malformed .lambdaEndsElsewhere 0) := by
  obtain ⟨v₁, s₁, h₁, -⟩ := ok_of_stopOf
    (show stopOf (expression 3 .live []) mapping {} = some 11 by decide +kernel)
  obtain ⟨v₂, s₂, h₂, -⟩ := ok_of_stopOf
    (show stopOf (expression 3 .dry [("x", .text "b")]) mapping {} = some 11 by decide +kernel)
  obtain ⟨v₃, s₃, h₃, hp⟩ := ok_of_stopOf
    (show stopOf (expression 1 .live [("x", .text "a")]) mapping { position := 8 } = some 9 by
      decide +kernel)
  have reads := Reads.of_ok h₃
  rw [hp] at reads
  have recorded : Lambda.Recorded mapping.tokens ⟨"x", 8, 9⟩ := reads
  obtain ⟨ends, keeps, body, never⟩ := cursor_independent_of_values
  have lambdas := (keeps .nil).1 v₁ h₁
  exact ⟨v₁, s₁, v₂, s₂, v₃, s₃, h₁, h₂, ends rfl rfl h₁ h₂, lambdas, recorded, h₃,
    body recorded rfl h₃, never mapping .live 0⟩

end Quarterly.Formula
