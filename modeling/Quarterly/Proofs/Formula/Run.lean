import Quarterly.Formula.Evaluation
import Quarterly.Proofs.Outcome

/-!
# Runs of the primitives

Equations say how the primitive computations run from a state: what they yield, what they leave
behind and when they fault. Whatever is said of all runs is read off these equations.
-/

namespace Quarterly.Formula

namespace Journal

/-- The journal after a step. -/
def stepped (j : Journal) (c : Context) (mode : Mode) (step : Step) : Journal :=
  if mode = .live ∧ c.tracing then { j with steps := j.steps.push step } else j

/-- The journal after a look-up in a live reading. -/
def lookedUp (j : Journal) (c : Context) (metric : String) (index : Int) (reference : String) :
    Journal :=
  let found := c.table.resolve metric index
  let substitution : Substitution := { reference, metric, found }
  { referenced := match found.quarter with
      | some quarter => j.referenced.push quarter
      | none => j.referenced
    substitutions := if c.tracing then j.substitutions.push substitution else j.substitutions
    steps := if c.tracing then j.steps.push (.lookup substitution) else j.steps
    notices := if c.verbose then j.notices.push (.lookedUp metric found) else j.notices }

theorem referenced_lookedUp (j : Journal) (c : Context) (metric : String) (index : Int)
    (reference : String) :
    (j.lookedUp c metric index reference).referenced =
      j.referenced ++ (c.table.resolve metric index).quarter.toArray := by
  unfold lookedUp
  dsimp only
  cases (c.table.resolve metric index).quarter <;> simp

theorem mem_referenced_lookedUp (j : Journal) (c : Context) (metric : String) (index : Int)
    (reference quarter : String) :
    quarter ∈ (j.lookedUp c metric index reference).referenced ↔
      quarter ∈ j.referenced ∨ (c.table.resolve metric index).quarter = some quarter := by
  rw [referenced_lookedUp, Array.mem_append, Option.mem_toArray]

end Journal

/-- The state at the end of a run. -/
def endState {α : Type} : EStateM.Result Fault State α → State
  | .ok _ s => s
  | .error _ s => s

/-- Read all tokens as one expression that nests at most as deep as given. -/
def readAll (depth : Nat) (mode : Mode) (scope : Scope) : Eval Value := do
  let value ← expression depth mode scope
  let token ← Eval.peek
  if token.kind ≠ .endMark then throw (.malformed (.unexpected token.text) token.position)
  return value

/-- One level of a reading. -/
theorem expression_succ (depth : Nat) (mode : Mode) (scope : Scope) :
    expression (depth + 1) mode scope =
      Rule.compared { expression := expression depth, body := expression (depth - 1) .live }
        mode scope := by
  cases depth <;> rfl

section

variable {α β : Type} (c : Context) (s : State)

theorem run_pure (a : α) : (pure a : Eval α) c s = .ok a s := rfl

theorem run_bind (m : Eval α) (f : α → Eval β) :
    (m >>= f) c s = match m c s with
      | .ok a s' => f a c s'
      | .error fault s' => .error fault s' := by
  change EStateM.bind (m c) (fun a => f a c) s = _
  unfold EStateM.bind
  cases m c s <;> rfl

theorem run_bind_eq_ok {m : Eval α} {f : α → Eval β} {b : β} {s' : State} :
    (m >>= f) c s = .ok b s' ↔ ∃ a t, m c s = .ok a t ∧ f a c t = .ok b s' := by
  rw [run_bind]
  cases m c s with
  | error fault t => simp
  | ok a t =>
    constructor
    · exact fun h => ⟨a, t, rfl, h⟩
    · rintro ⟨_, _, ⟨⟩, h⟩
      exact h

theorem run_map (f : α → β) (m : Eval α) :
    (f <$> m) c s = match m c s with
      | .ok a s' => .ok (f a) s'
      | .error fault s' => .error fault s' := by
  change EStateM.map f (m c) s = _
  unfold EStateM.map
  cases m c s <;> rfl

theorem run_read : (read : Eval Context) c s = .ok c s := rfl

theorem run_note (change : Journal → Journal) :
    Eval.note change c s = .ok () { s with journal := change s.journal } := rfl

theorem run_tooDeep : tooDeep c s = .error (.tooDeep c.maxDepth) s := rfl

theorem run_tokenAt (i : Nat) :
    Eval.tokenAt i c s = match c.tokens[i]? with
      | some token => .ok token s
      | none => .error .pastLastToken s := by
  change (match c.tokens[i]? with
    | some token => (pure token : Eval Token)
    | none => throw Fault.pastLastToken) c s = _
  cases c.tokens[i]? <;> rfl

theorem run_notice (n : Notice) :
    Eval.notice n c s =
      .ok () { s with journal := { s.journal with notices := s.journal.notices.push n } } := rfl

theorem run_noteStep (mode : Mode) (step : Step) :
    Eval.noteStep mode step c s = .ok () { s with journal := s.journal.stepped c mode step } := by
  change (if mode = .live ∧ c.tracing then
    Eval.note (fun j => { j with steps := j.steps.push step }) else pure ()) c s = _
  unfold Journal.stepped
  split <;> rfl

theorem run_lookup_live (metric : String) (index : Int) (reference : String) :
    Rule.lookup .live metric index reference c s =
      .ok (lookupValue (c.table.resolve metric index))
        { s with journal := s.journal.lookedUp c metric index reference } := by
  unfold Rule.lookup Journal.lookedUp
  cases h : (c.table.resolve metric index).quarter <;> cases ht : c.tracing <;>
    cases hv : c.verbose <;>
    simp [run_bind, run_map, run_read, run_note, run_noteStep, run_notice, run_pure,
      Journal.stepped, h, ht, hv]

theorem run_skip (nested : Nested) (scope : Scope) :
    Rule.skip nested scope c s = match nested.expression .dry scope c s with
      | .ok _ s' =>
        .ok s'.position { s' with position := s.position, nextIdentity := s.nextIdentity }
      | .error fault s' => .error fault { s' with position := s.position } := by
  change (Eval.elsewhere s.position (nested.expression .dry scope) >>= fun r => do
    modify fun s' => { s' with nextIdentity := s.nextIdentity }
    return r.2) c s = _
  rw [run_bind]
  unfold Eval.elsewhere
  cases nested.expression .dry scope c s <;> rfl

end

/-- The state in which evaluations start. -/
def State.start (scope : Scope) : State :=
  { nextIdentity := Value.itemsIdentityBound (scope.map (·.2)) }

/-- What a run comes to. -/
def Evaluation.ofEnd : EStateM.Result Fault State Value → Evaluation
  | .ok v s => ⟨.ok v, s.position, s.journal⟩
  | .error fault s => ⟨.error fault, s.position, s.journal⟩

theorem evaluate_eq (c : Context) (mode : Mode) (scope : Scope) :
    evaluate c mode scope =
      .ofEnd (readAll c.maxDepth.toNat mode scope c (.start scope)) := by
  change (match readAll c.maxDepth.toNat mode scope c (.start scope) with
    | .ok v s => (⟨.ok v, s.position, s.journal⟩ : Evaluation)
    | .error fault s => ⟨.error fault, s.position, s.journal⟩) = _
  cases readAll c.maxDepth.toNat mode scope c (.start scope) <;> rfl

theorem journal_evaluate (c : Context) (mode : Mode) (scope : Scope) :
    (evaluate c mode scope).journal =
      (endState (readAll c.maxDepth.toNat mode scope c (.start scope))).journal := by
  rw [evaluate_eq]
  cases readAll c.maxDepth.toNat mode scope c (.start scope) <;> rfl

theorem exists_value {run : Evaluation} (h : run.outcome.toOption.isSome = true) :
    ∃ value, run.outcome = .ok value :=
  Except.exists_ok h

section

variable {c : Context} {mode : Mode} {scope : Scope}

/-- An evaluation comes to a value where the reading of all tokens comes back with it. -/
theorem exists_run_of_value {v : Value} (h : (evaluate c mode scope).outcome = .ok v) :
    ∃ s, readAll c.maxDepth.toNat mode scope c (.start scope) = .ok v s ∧
      evaluate c mode scope = ⟨.ok v, s.position, s.journal⟩ := by
  rw [evaluate_eq] at h ⊢
  cases run : readAll c.maxDepth.toNat mode scope c (.start scope) with
  | ok v' s =>
    rw [run] at h
    cases h
    exact ⟨s, rfl, rfl⟩
  | error fault s =>
    rw [run] at h
    cases h

/-- An evaluation ends in a fault where the reading of all tokens stops with it. -/
theorem exists_run_of_fault {fault : Fault} (h : (evaluate c mode scope).outcome = .error fault) :
    ∃ s, readAll c.maxDepth.toNat mode scope c (.start scope) = .error fault s ∧
      evaluate c mode scope = ⟨.error fault, s.position, s.journal⟩ := by
  rw [evaluate_eq] at h ⊢
  cases run : readAll c.maxDepth.toNat mode scope c (.start scope) with
  | ok v s =>
    rw [run] at h
    cases h
  | error fault' s =>
    rw [run] at h
    cases h
    exact ⟨s, rfl, rfl⟩

end

end Quarterly.Formula
