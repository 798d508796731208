import Quarterly.Proofs.Formula.Cursor

/-!
# What readings do to the journal

Only three computations write to the journal: noting a step, giving notice of an unknown function
and looking a metric up. A relation between journals that each of them keeps to, and that carries
over from one computation to the next, holds between the journals before and after every reading,
whether the reading comes back or faults.
-/

namespace Quarterly.Formula

/-- What the three computations do to a journal, in the modes that are admitted, leads along a
relation. -/
structure Leads (c : Context) (Admits : Mode → Prop) (leads : Journal → Journal → Prop) :
    Prop where
  dry : Admits .dry
  refl : ∀ j, leads j j
  trans : ∀ {i j k}, leads i j → leads j k → leads i k
  stepped : ∀ {mode step} j, Admits mode → step.Computed → leads j (j.stepped c mode step)
  noticed : Admits .live → ∀ (j : Journal) name,
    leads j { j with notices := j.notices.push (.unknownFunction name) }
  lookedUp : Admits .live → ∀ j metric index reference,
    leads j (j.lookedUp c metric index reference)

/-- Runs that start at a token lead the journal along a relation. -/
def Journaled (c : Context) (leads : Journal → Journal → Prop) {α : Type} (p : Nat)
    (Q : α → Nat → Prop) (m : Eval α) : Prop :=
  ∀ s : State, s.position = p → leads s.journal (endState (m c s)).journal ∧
    ∀ a s', m c s = .ok a s' → Q a s'.position

namespace Journaled

variable {c : Context} {Admits : Mode → Prop} {leads : Journal → Journal → Prop} {α β : Type}
  {p : Nat} (h : Leads c Admits leads)

/-- A computation that comes back from every state. -/
theorem of_ok {Q : α → Nat → Prop} {m : Eval α} (a : State → α) (next : State → State)
    (run : ∀ s, m c s = .ok (a s) (next s)) (along : ∀ s, leads s.journal (next s).journal)
    (ends : ∀ s, s.position = p → Q (a s) (next s).position) : Journaled c leads p Q m := by
  intro s hs
  rw [run]
  refine ⟨along s, fun b s' hb => ?_⟩
  cases hb
  exact ends s hs

include h

theorem quiet {Q : α → Nat → Prop} {m : Eval α} (a : State → α) (next : State → State)
    (run : ∀ s, m c s = .ok (a s) (next s)) (same : ∀ s, (next s).journal = s.journal)
    (ends : ∀ s, s.position = p → Q (a s) (next s).position) : Journaled c leads p Q m := by
  refine of_ok a next run (fun s => ?_) ends
  rw [same]
  exact h.refl _

theorem throw {Q : α → Nat → Prop} {fault : Fault} :
    Journaled c leads p Q (throw fault : Eval α) :=
  fun _ _ => ⟨h.refl _, fun _ _ hr => by cases hr⟩

theorem bind {R : α → Nat → Prop} {Q : β → Nat → Prop} {m : Eval α} {f : α → Eval β}
    (hm : Journaled c leads p R m) (hf : ∀ a q, R a q → Journaled c leads q Q (f a)) :
    Journaled c leads p Q (m >>= f) := by
  intro s hs
  obtain ⟨along, ends⟩ := hm s hs
  rw [run_bind]
  cases hr : m c s with
  | ok a s' =>
    rw [hr] at along
    obtain ⟨rest, restEnds⟩ := hf a s'.position (ends a s' hr) s' rfl
    exact ⟨h.trans along rest, restEnds⟩
  | error fault s' =>
    rw [hr] at along
    exact ⟨along, fun b s'' hb => by cases hb⟩

theorem tokenAt {i : Nat} {Q : Token → Nat → Prop}
    (ends : ∀ token, c.tokens[i]? = some token → Q token p) :
    Journaled c leads p Q (Eval.tokenAt i) := by
  rintro s rfl
  rw [run_tokenAt]
  cases ht : c.tokens[i]? with
  | none => exact ⟨h.refl _, fun a s' hr => by cases hr⟩
  | some token =>
    refine ⟨h.refl _, fun a s' hr => ?_⟩
    cases hr
    exact ends token ht

theorem lookup {P : Lambda → Prop} {Q : Value → Nat → Prop} {mode : Mode} {metric : String}
    {index : Int} {reference : String} (admits : Admits mode)
    (ends : ∀ v : Value, v.EveryLambda P → Q v p) :
    Journaled c leads p Q (Rule.lookup mode metric index reference) := by
  cases mode with
  | dry =>
    exact quiet h (fun _ => .null) id (fun _ => rfl) (fun _ => rfl)
      fun _ hs => hs ▸ ends _ (.scalar trivial)
  | live =>
    exact of_ok _ _ (fun s => run_lookup_live c s metric index reference)
      (fun s => h.lookedUp admits s.journal metric index reference)
      fun _ hs => hs ▸ ends _ (.scalar (isScalar_lookupValue _))

omit h in
theorem elsewhere {start : Nat} {R : α → Nat → Prop} {Q : α × Nat → Nat → Prop}
    {inner : Eval α} (hi : Journaled c leads start R inner)
    (ends : ∀ a stop, R a stop → Q (a, stop) p) :
    Journaled c leads p Q (Eval.elsewhere start inner) := by
  rintro s rfl
  obtain ⟨along, innerEnds⟩ := hi { s with position := start } rfl
  unfold Eval.elsewhere
  cases hr : inner c { s with position := start } with
  | ok a s' =>
    rw [hr] at along
    refine ⟨along, fun b s'' hb => ?_⟩
    cases hb
    exact ends a s'.position (innerEnds a s' hr)
  | error fault s' =>
    rw [hr] at along
    exact ⟨along, fun b s'' hb => by cases hb⟩

omit h in
theorem skip {R : Value → Nat → Prop} {Q : Nat → Nat → Prop} {nested : Nested} {scope : Scope}
    (hd : Journaled c leads p R (nested.expression .dry scope))
    (ends : ∀ v stop, R v stop → Q stop p) :
    Journaled c leads p Q (Rule.skip nested scope) := by
  rintro s rfl
  obtain ⟨along, innerEnds⟩ := hd s rfl
  rw [run_skip]
  cases hr : nested.expression .dry scope c s with
  | ok v s' =>
    rw [hr] at along
    refine ⟨along, fun b s'' hb => ?_⟩
    cases hb
    exact ends v s'.position (innerEnds v s' hr)
  | error fault s' =>
    rw [hr] at along
    exact ⟨along, fun b s'' hb => by cases hb⟩

/-- Readings along a relation between journals. -/
def logic : ReadingLogic c.tokens fun _ => True where
  Admits := Admits
  Holds := Journaled c leads
  dry := h.dry
  pure hq := quiet h (fun _ => _) id (fun _ => rfl) (fun _ => rfl) fun _ hs => hs ▸ hq
  bind := bind h
  fault _ := throw h
  tooDeep := fun _ _ => ⟨h.refl _, fun _ _ hr => by cases hr⟩
  tokenAt := tokenAt h
  tokensLeft hq := quiet h (fun s => c.tokens.size - s.position) id (fun _ => rfl)
    (fun _ => rfl) fun _ hs => hs ▸ hq _
  position hq := quiet h State.position id (fun _ => rfl) (fun _ => rfl) fun _ hs => hs ▸ hq
  formula hf := fun s hs => hf c.formula s hs
  setPosition hq := quiet h (fun _ => ()) _ (fun _ => rfl) (fun _ => rfl) fun _ _ => hq
  newIdentity hq := quiet h State.nextIdentity _ (fun _ => rfl) (fun _ => rfl)
    fun _ hs => hs ▸ hq _
  noteStep {p Q mode step} admits computed hq :=
    of_ok (fun _ => ()) _ (fun s => run_noteStep c s mode step)
      (fun s => h.stepped s.journal admits computed) fun _ hs => hs ▸ hq
  noticeUnknown live hq := of_ok (fun _ => ()) _ (fun s => run_notice c s _)
    (fun s => h.noticed live s.journal _) fun _ hs => hs ▸ hq
  lookup := lookup h
  elsewhere := elsewhere
  skip := skip
  made _ := trivial
  mismatch _ _ _ := throw h

end Journaled

namespace Leads

variable {c : Context} {Admits : Mode → Prop} {leads : Journal → Journal → Prop}
  (h : Leads c Admits leads)

include h

theorem expression {mode : Mode} (admits : Admits mode) (depth : Nat) (scope : Scope)
    (s : State) :
    leads s.journal (endState (Formula.expression depth mode scope c s)).journal := by
  have keeps : Keeps (fun _ => True) scope := fun _ _ => .of_forall (fun _ => trivial) _
  exact ((Journaled.logic h).expression depth admits keeps s rfl).1

theorem evaluate {mode : Mode} (admits : Admits mode) (scope : Scope) :
    leads {} (Formula.evaluate c mode scope).journal := by
  have keeps : Keeps (fun _ => True) scope := fun _ _ => .of_forall (fun _ => trivial) _
  rw [journal_evaluate]
  exact ((Journaled.logic h).readAll admits keeps (.start scope) rfl).1

end Leads

end Quarterly.Formula
