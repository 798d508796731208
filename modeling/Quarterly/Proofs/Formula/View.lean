import Quarterly.Proofs.Formula.Logic

/-!
# The same reading in two contexts

Contexts with the same tokens and the same table make for the same readings. What differs is what is
noted on the way and how a limit is worded when it is reached. A `View` says how the journal kept in
one context comes from the journal kept in the other, and which faults stand for each other. Every
reading in the one context is then seen in the other: it comes to the same value at the same token,
or to a fault that stands for its fault.
-/

namespace Quarterly.Formula

/-- How readings in one context are seen in another one. -/
structure View (c c' : Context) where
  /-- The journal kept in the other context. -/
  journal : Journal → Journal
  /-- Whether a fault in the other context stands for a fault in this one. -/
  StandsFor : Fault → Fault → Prop
  tokens : c'.tokens = c.tokens
  formula : c'.formula = c.formula
  table : c'.table = c.table
  same : ∀ fault, StandsFor fault fault
  tooDeep : StandsFor (.tooDeep c'.maxDepth) (.tooDeep c.maxDepth)
  stepped : ∀ j mode step, journal (j.stepped c mode step) = (journal j).stepped c' mode step
  noticed : ∀ (j : Journal) name,
    journal { j with notices := j.notices.push (.unknownFunction name) } =
      { journal j with notices := (journal j).notices.push (.unknownFunction name) }
  lookedUp : ∀ j metric index reference,
    journal (j.lookedUp c metric index reference) =
      (journal j).lookedUp c' metric index reference

namespace View

variable {c c' : Context} (v : View c c') {α β : Type} {p : Nat}

/-- A state as it is in the other context. -/
def state (s : State) : State := { s with journal := v.journal s.journal }

/-- The ends of a run in both contexts. -/
inductive Ends (Q : α → Nat → Prop) :
    EStateM.Result Fault State α → EStateM.Result Fault State α → Prop where
  | ok {a s} (h : Q a s.position) : Ends Q (.ok a s) (.ok a (v.state s))
  | error {fault fault' s} (h : v.StandsFor fault' fault) :
    Ends Q (.error fault s) (.error fault' (v.state s))

/-- Runs that start at a token are seen in the other context. -/
def Seen (p : Nat) (Q : α → Nat → Prop) (m : Eval α) : Prop :=
  ∀ s : State, s.position = p → v.Ends Q (m c s) (m c' (v.state s))

namespace Seen

variable {v}

/-- A computation that comes back from every state. -/
theorem of_ok {Q : α → Nat → Prop} {m : Eval α} (a : State → α) (next : State → State)
    (here : ∀ s, m c s = .ok (a s) (next s))
    (there : ∀ s, m c' (v.state s) = .ok (a s) (v.state (next s)))
    (h : ∀ s, s.position = p → Q (a s) (next s).position) : v.Seen p Q m := by
  intro s hs
  rw [here, there]
  exact .ok (h s hs)

theorem throw {Q : α → Nat → Prop} {fault : Fault} : v.Seen p Q (throw fault : Eval α) := by
  intro s _
  exact .error (v.same fault)

theorem bind {R : α → Nat → Prop} {Q : β → Nat → Prop} {m : Eval α} {f : α → Eval β}
    (hm : v.Seen p R m) (hf : ∀ a q, R a q → v.Seen q Q (f a)) : v.Seen p Q (m >>= f) := by
  intro s hs
  have first := hm s hs
  rw [run_bind, run_bind]
  generalize m c s = here at first
  generalize m c' (v.state s) = there at first
  cases first with
  | ok h => exact hf _ _ h _ rfl
  | error h => exact .error h

theorem tokenAt {i : Nat} {Q : Token → Nat → Prop}
    (h : ∀ token, c.tokens[i]? = some token → Q token p) : v.Seen p Q (Eval.tokenAt i) := by
  intro s hs
  subst hs
  rw [run_tokenAt, run_tokenAt, v.tokens]
  cases ht : c.tokens[i]? with
  | none => exact .error (v.same _)
  | some token => exact .ok (h token ht)

theorem lookup {P : Lambda → Prop} {Q : Value → Nat → Prop} {mode : Mode} {metric : String}
    {index : Int} {reference : String} (h : ∀ u : Value, u.EveryLambda P → Q u p) :
    v.Seen p Q (Rule.lookup mode metric index reference) := by
  cases mode with
  | dry =>
    apply of_ok (fun _ => .null) id (fun _ => rfl) (fun _ => rfl)
    intro s hs
    exact hs ▸ h _ (.scalar trivial)
  | live =>
    apply of_ok _ _ (fun s => run_lookup_live c s metric index reference)
    · intro s
      rw [run_lookup_live, v.table]
      simp only [state, v.lookedUp]
    · intro s hs
      exact hs ▸ h _ (.scalar (isScalar_lookupValue _))

theorem elsewhere {start : Nat} {R : α → Nat → Prop} {Q : α × Nat → Nat → Prop}
    {inner : Eval α} (hi : v.Seen start R inner) (h : ∀ a stop, R a stop → Q (a, stop) p) :
    v.Seen p Q (Eval.elsewhere start inner) := by
  intro s hs
  have ends := hi { s with position := start } rfl
  have moved : { v.state s with position := start } = v.state { s with position := start } := rfl
  unfold Eval.elsewhere
  rw [moved]
  generalize inner c { s with position := start } = here at ends
  generalize inner c' (v.state { s with position := start }) = there at ends
  cases ends with
  | ok ha => exact .ok (hs ▸ h _ _ ha)
  | error hf => exact .error hf

theorem skip {R : Value → Nat → Prop} {Q : Nat → Nat → Prop} {nested : Nested} {scope : Scope}
    (hd : v.Seen p R (nested.expression .dry scope)) (h : ∀ u stop, R u stop → Q stop p) :
    v.Seen p Q (Rule.skip nested scope) := by
  intro s hs
  have ends := hd s hs
  rw [run_skip, run_skip]
  generalize nested.expression .dry scope c s = here at ends
  generalize nested.expression .dry scope c' (v.state s) = there at ends
  cases ends with
  | ok hv => exact .ok (hs ▸ h _ _ hv)
  | error hf => exact .error hf

end Seen

/-- Readings in two contexts. -/
def logic : ReadingLogic c.tokens fun _ => True where
  Admits := fun _ => True
  Holds := v.Seen
  dry := trivial
  pure h := .of_ok (fun _ => _) id (fun _ => rfl) (fun _ => rfl) fun _ hs => hs ▸ h
  bind := .bind
  fault _ := .throw
  tooDeep := fun _ _ => .error v.tooDeep
  tokenAt := .tokenAt
  tokensLeft {p Q} h := by
    apply Seen.of_ok (fun s => c.tokens.size - s.position) id (fun _ => rfl)
    · intro s
      change EStateM.Result.ok (c'.tokens.size - s.position) (v.state s) = _
      rw [v.tokens]
      rfl
    · intro s hs
      exact hs ▸ h _
  position h := .of_ok State.position id (fun _ => rfl) (fun _ => rfl) fun _ hs => hs ▸ h
  formula {α p Q f} h := by
    intro s hs
    change v.Ends Q (f c.formula c s) (f c'.formula c' (v.state s))
    rw [v.formula]
    exact h c.formula s hs
  setPosition h := .of_ok (fun _ => ()) _ (fun _ => rfl) (fun _ => rfl) fun _ _ => h
  newIdentity h := .of_ok State.nextIdentity _ (fun _ => rfl) (fun _ => rfl) fun _ hs => hs ▸ h _
  noteStep {p Q mode step} _ _ h := by
    apply Seen.of_ok (fun _ => ()) _ (fun s => run_noteStep c s mode step)
    · intro s
      rw [run_noteStep]
      simp only [state, v.stepped]
    · intro s hs
      exact hs ▸ h
  noticeUnknown {p Q name} _ h := by
    apply Seen.of_ok (fun _ => ()) _ (fun s => run_notice c s (.unknownFunction name))
    · intro s
      rw [run_notice]
      simp only [state, v.noticed]
    · intro s hs
      exact hs ▸ h
  lookup _ := .lookup
  elsewhere := .elsewhere
  skip := .skip
  made _ := trivial
  mismatch _ _ _ := .throw

/-- An evaluation is seen in the other context. -/
theorem readAll (depth : Nat) (mode : Mode) (scope : Scope) (s : State) :
    v.Ends (fun _ _ => True) (Formula.readAll depth mode scope c s)
      (Formula.readAll depth mode scope c' (v.state s)) := by
  have keeps : Keeps (fun _ => True) scope := fun _ _ => .of_forall (fun _ => trivial) _
  have seen : v.Seen s.position (fun _ _ => True) (Formula.readAll depth mode scope) :=
    v.logic.mono (v.logic.readAll trivial keeps) fun _ _ _ => trivial
  exact seen s rfl

end View

end Quarterly.Formula
