import Quarterly.Proofs.Formula.Journaled

/-!
# Skipping

The body of a lambda is skipped by a dry reading. A dry reading leaves the journal as it is: it
looks nothing up, notes nothing and notices nothing.
-/

namespace Quarterly.Formula

/-- Dry readings leave the journal as it is. -/
theorem leads_dry (c : Context) : Leads c (· = .dry) fun j j' => j' = j where
  dry := rfl
  refl _ := rfl
  trans first second := second.trans first
  stepped j dry _ := by simp [Journal.stepped, dry]
  noticed live := by cases live
  lookedUp live := by cases live

/-- A dry reading leaves the journal as it is, whether it comes back or faults. -/
theorem journal_of_dry (depth : Nat) (scope : Scope) (c : Context) (s : State) :
    (endState (expression depth .dry scope c s)).journal = s.journal :=
  (leads_dry c).expression rfl depth scope s

end Quarterly.Formula
