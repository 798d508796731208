import Mathlib.Algebra.Group.Int.Defs
import Quarterly.Proofs.Formula.Acceptance
import Quarterly.Proofs.Formula.Lockstep
import Quarterly.Proofs.Formula.NumericFaults

/-!
# Skipping and the values in scope

A lambda body is skipped by reading it dry, and a dry reading still looks names up in scope and
still applies operators to what it finds. So values play a part after all: an integer beyond the
range of the doubles, met by a double, ends the reading. Nothing else that is in scope makes a
difference.
-/

namespace Quarterly.Formula

/-! ### Readings with and without integers -/

theorem meets_of_faultsWhen {α : Type} {x : Except NumericFault α} {p q : Prop} {Q : α → Prop}
    (h : FaultsWhen NumericFault.IsOverflow q x) (hp : p) (hQ : ∀ a, Q a) :
    Meets x Q fun cause => p ∧ Fault.IsOverflow (.numeric cause) := by
  cases x with
  | ok a => exact hQ a
  | error cause => exact ⟨hp, cause, rfl, h.1⟩

/-- A reading of which it is known whether integers may occur in it. Where they do not occur,
nothing overflows. -/
def Side.integers (c : Context) (occur : Prop) : Side where
  context := c
  Good v := occur ∨ v.NoInteger
  Excuses fault := occur ∧ fault.IsOverflow
  null := .inr fun _ h => by cases h
  bool _ := .inr fun _ h => by cases h
  text _ := .inr fun _ h => by cases h
  array _ _ := .inr fun _ h => by cases h
  lambda _ _ := .inr fun _ h => by cases h
  numeral x := .inr (Value.noInteger_ofFinite x)
  found := by
    intro found
    right
    intro n h
    unfold lookupValue at h
    split at h <;> cases h
    trivial
  negate h := h.imp id noInteger_negate
  arithmetic := by
    intro op a b ha hb
    by_cases occurs : occur
    · exact meets_of_faultsWhen (faults_arithmetic op a b) occurs fun _ => .inl occurs
    · obtain ⟨v, hv, good⟩ :=
        exists_arithmetic (ha.resolve_left occurs) (hb.resolve_left occurs) op
      rw [hv]
      exact .inr good
  comparison := by
    intro op a b ha hb
    by_cases occurs : occur
    · exact meets_of_faultsWhen (faults_comparison op a b) occurs fun _ => trivial
    · obtain ⟨result, hr⟩ :=
        exists_comparison (ha.resolve_left occurs) (hb.resolve_left occurs) op
      rw [hr]
      trivial
  percent := by
    intro n hn
    by_cases occurs : occur
    · exact meets_of_faultsWhen (faults_percent n) occurs fun _ => .inl occurs
    · obtain ⟨v, hv, good⟩ := exists_percent (hn.resolve_left occurs n rfl)
      rw [hv]
      exact .inr good

/-- A scope binds a name to an integer. -/
def BindsInteger (scope : Scope) : Prop := ∃ name i, (name, .number (.int i)) ∈ scope

theorem keeps_integers (c : Context) (scope : Scope) :
    (Side.integers c (BindsInteger scope)).Keeps scope := by
  intro binding hb
  by_cases occurs : BindsInteger scope
  · exact .inl occurs
  · right
    intro n hn
    cases n with
    | int i => exact absurd ⟨binding.1, i, hn ▸ hb⟩ occurs
    | double x => trivial

/-! ### Readings in two scopes -/

/-- Two readings end alike: at the same token or with the same fault. -/
def EndAlike : EStateM.Result Fault State Value → EStateM.Result Fault State Value → Prop
  | .ok _ s, .ok _ t => t.position = s.position
  | .error fault _, .error fault' _ => fault' = fault
  | _, _ => False

instance : DecidableRel EndAlike
  | .ok _ s, .ok _ t => inferInstanceAs (Decidable (t.position = s.position))
  | .error fault _, .error fault' _ => inferInstanceAs (Decidable (fault' = fault))
  | .ok _ _, .error _ _ | .error _ _, .ok _ _ => isFalse id

/-- A reading ends with a number beyond the range of the doubles. -/
def Overflows : EStateM.Result Fault State Value → Prop
  | .ok _ _ => False
  | .error fault _ => fault.IsOverflow

/-- The body `x - 0.5`. -/
def lessHalf : Context where
  formula := "x-0.5".toList
  tokens := #[⟨.identifier, "x", 0⟩, ⟨.operator, "-", 1⟩, ⟨.number, "0.5", 2⟩, ⟨.endMark, "", 5⟩]
  table := ⟨[], [], 0⟩

end Quarterly.Formula
