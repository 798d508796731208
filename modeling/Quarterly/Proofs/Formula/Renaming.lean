import Quarterly.Proofs.Formula.Bodies

/-!
# Faults of skipping

The body of a lambda is skipped before it is ever called, and skipping can fault where the calls
would not. To tell the faults of skipping from all others, let them be renamed: whatever the
renaming, a live reading runs in the same way, and only a fault that came from skipping has another
name.
-/

namespace Quarterly.Formula

/-! ### Renaming -/

/-- A computation with its faults renamed. -/
def renamed {α : Type} (rename : Fault → Fault) (m : Eval α) : Eval α := fun c s =>
  match m c s with
  | .ok a s' => .ok a s'
  | .error fault s' => .error (rename fault) s'

theorem renamed_id {α : Type} (m : Eval α) : renamed id m = m := by
  funext c s
  unfold renamed
  cases m c s <;> rfl

/-- Live readings in which the faults of skipping are renamed. -/
def expressionWith (rename : Fault → Fault) : Nat → Mode → Scope → Eval Value
  | depth, .dry, scope => renamed rename (expression depth .dry scope)
  | 0, .live, _ => tooDeep
  | 1, .live, scope =>
    Rule.compared
      { expression := expressionWith rename 0, body := expressionWith rename 0 .live } .live scope
  | depth + 2, .live, scope =>
    Rule.compared
      { expression := expressionWith rename (depth + 1), body := expressionWith rename depth .live }
      .live scope

/-- One level of a reading. -/
theorem expressionWith_succ (rename : Fault → Fault) (depth : Nat) (scope : Scope) :
    expressionWith rename (depth + 1) .live scope =
      Rule.compared
        { expression := expressionWith rename depth
          body := expressionWith rename (depth - 1) .live } .live scope := by
  cases depth <;> rfl

/-- Only the readings that skip bodies are renamed. -/
theorem expressionWith_eq_through (rename : Fault → Fault) (depth : Nat) (mode : Mode)
    (scope : Scope) :
    expressionWith rename depth mode scope =
      expressionThrough ⟨renamed rename, id⟩ depth mode scope := by
  match depth, mode with
  | _, .dry => rw [expressionWith, expressionThrough]
  | 0, .live => rfl
  | depth + 1, .live =>
    have nested : expressionWith rename depth = expressionThrough ⟨renamed rename, id⟩ depth := by
      funext mode scope
      exact expressionWith_eq_through rename depth mode scope
    have body : expressionWith rename (depth - 1) .live =
        expressionThrough ⟨renamed rename, id⟩ (depth - 1) .live := by
      funext scope
      exact expressionWith_eq_through rename (depth - 1) .live scope
    rw [expressionWith_succ, expressionThrough_succ, nested, body]
    rfl

/-- Renaming nothing. -/
theorem expressionWith_id (depth : Nat) (mode : Mode) (scope : Scope) :
    expressionWith id depth mode scope = expression depth mode scope := by
  have plain : (⟨renamed id, id⟩ : Bodies) = .plain :=
    congrArg (Bodies.mk · id) (funext renamed_id)
  rw [expressionWith_eq_through, plain, expressionThrough_plain]

/-- Read all tokens live with the faults of skipping renamed. -/
def readAllWith (rename : Fault → Fault) (depth : Nat) (scope : Scope) : Eval Value := do
  let value ← expressionWith rename depth .live scope
  let token ← Eval.peek
  if token.kind ≠ .endMark then throw (.malformed (.unexpected token.text) token.position)
  return value

theorem readAllWith_id (depth : Nat) (scope : Scope) :
    readAllWith id depth scope = readAll depth .live scope := by
  rw [readAllWith, expressionWith_id, readAll]

/-- The live evaluation faults while it skips the body of a lambda: a renaming of the faults of
skipping renames the fault. -/
def FaultsInSkipping (c : Context) (scope : Scope) (fault : Fault) : Prop :=
  ∀ rename, ∃ s, readAllWith rename c.maxDepth.toNat scope c (.start scope) =
    .error (rename fault) s

/-! ### Uniform families -/

/-- Runs for all renamings end alike: with the same result, with the same fault, or each with its
name of one fault. -/
inductive Alike {α : Type} (ends : (Fault → Fault) → EStateM.Result Fault State α) : Prop where
  | ok (a : α) (s : State) (h : ∀ rename, ends rename = .ok a s)
  | fault (fault : Fault) (s : State) (h : ∀ rename, ends rename = .error fault s)
  | renamed (fault : Fault) (s : State) (h : ∀ rename, ends rename = .error (rename fault) s)

/-- A family of computations, one for each renaming, whose runs end alike. -/
def Uniform {α : Type} (m : (Fault → Fault) → Eval α) : Prop :=
  ∀ (c : Context) (s : State), Alike fun rename => m rename c s

namespace Uniform

variable {α β : Type}

/-- A computation that skips nothing. -/
theorem const (m : Eval α) : Uniform fun _ => m := by
  intro c s
  cases h : m c s with
  | ok a s' => exact .ok a s' fun _ => h
  | error fault s' => exact .fault fault s' fun _ => h

theorem renamed (m : Eval α) : Uniform fun rename => Formula.renamed rename m := by
  intro c s
  cases h : m c s with
  | ok a s' => exact .ok a s' fun _ => by simp only [Formula.renamed, h]
  | error fault s' => exact .renamed fault s' fun _ => by simp only [Formula.renamed, h]

theorem bind {m : (Fault → Fault) → Eval α} {f : (Fault → Fault) → α → Eval β}
    (hm : Uniform m) (hf : ∀ a, Uniform fun rename => f rename a) :
    Uniform fun rename => m rename >>= f rename := by
  intro c s
  simp only [run_bind]
  cases hm c s with
  | ok a s' h =>
    simp only [h]
    exact hf a c s'
  | fault fault s' h =>
    simp only [h]
    exact .fault fault s' fun _ => rfl
  | renamed fault s' h =>
    simp only [h]
    exact .renamed fault s' fun _ => rfl

theorem elsewhere {start : Nat} {m : (Fault → Fault) → Eval α} (hm : Uniform m) :
    Uniform fun rename => Eval.elsewhere start (m rename) := by
  intro c s
  unfold Eval.elsewhere
  cases hm c { s with position := start } with
  | ok a s' h =>
    simp only [h]
    exact .ok _ _ fun _ => rfl
  | fault fault s' h =>
    simp only [h]
    exact .fault fault _ fun _ => rfl
  | renamed fault s' h =>
    simp only [h]
    exact .renamed fault _ fun _ => rfl

/-- What runs for all renamings have in common. -/
def logic : FamilyLogic (Fault → Fault) := ⟨Uniform, const, bind, elsewhere⟩

end Uniform

/-! ### Readings -/

theorem uniform_expressionWith (depth : Nat) (mode : Mode) (scope : Scope) :
    Uniform fun rename => expressionWith rename depth mode scope := by
  let bodies (rename : Fault → Fault) : Bodies := ⟨Formula.renamed rename, id⟩
  have skipped : ∀ depth scope,
      Uniform fun rename => (bodies rename).skipped (expression depth .dry scope) :=
    fun _ _ => .renamed _
  simp only [expressionWith_eq_through]
  exact Uniform.logic.expressionThrough skipped (fun uniform => uniform) depth mode scope

theorem uniform_readAllWith (depth : Nat) (scope : Scope) :
    Uniform fun rename => readAllWith rename depth scope :=
  .bind (uniform_expressionWith depth .live scope) fun _ => .const _

/-- A fault of a live evaluation came from skipping, or else no renaming of the faults of skipping
makes a difference. -/
theorem faultsInSkipping_or {c : Context} {scope : Scope} {fault : Fault}
    (h : (evaluate c .live scope).outcome = .error fault) :
    FaultsInSkipping c scope fault ∨
      ∀ rename, ∃ s, readAllWith rename c.maxDepth.toNat scope c (.start scope) =
        .error fault s := by
  rw [evaluate_eq, ← readAllWith_id] at h
  have alike : Alike fun rename => readAllWith rename c.maxDepth.toNat scope c (.start scope) :=
    uniform_readAllWith _ scope c _
  cases alike with
  | ok v s ends =>
    rw [ends] at h
    cases h
  | fault other s ends =>
    rw [ends] at h
    cases h
    exact .inr fun rename => ⟨s, ends rename⟩
  | renamed other s ends =>
    rw [ends] at h
    cases h
    exact .inl fun rename => ⟨s, ends rename⟩

end Quarterly.Formula
