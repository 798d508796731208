import Quarterly.Proofs.Formula.Account
import Quarterly.Proofs.Formula.Lexemes
import Quarterly.Proofs.Formula.Validity

/-!
# Checks come back

A check evaluates a formula over an empty window and reports the fault of the formula that it comes
across. Two faults are not those of a formula, and a check would have to pass them on: that the
tokens ended too early and that the library does not have a function. Neither can occur. The tokens
of a text end with an end mark, and they call nothing by a function's name that is not in the
library. Where an evaluation complains of an unknown function, a name that is none stands in front
of a parenthesis.
-/

namespace Quarterly.Formula

/-! ### Calls of unknown functions -/

/-- Every unknown function in a journal is called by some tokens. -/
structure Journal.Called (tokens : Array Token) (j : Journal) : Prop where
  notices : ∀ name, .unknownFunction name ∈ j.notices → CallsUnknown tokens name
  steps : ∀ name args, .unknownCall name args ∈ j.steps → CallsUnknown tokens name

namespace Journal.Called

variable {tokens : Array Token} {j : Journal}

theorem empty : Journal.Called tokens {} where
  notices _ h := by simp at h
  steps _ _ h := by simp at h

theorem lookedUp (h : j.Called tokens) (c : Context) (metric : String) (index : Int)
    (reference : String) : (j.lookedUp c metric index reference).Called tokens where
  notices name mem := by
    unfold Journal.lookedUp at mem
    dsimp only at mem
    split at mem
    · rcases Array.mem_push.mp mem with mem | mem
      · exact h.notices name mem
      · cases mem
    · exact h.notices name mem
  steps name args mem := by
    unfold Journal.lookedUp at mem
    dsimp only at mem
    split at mem
    · rcases Array.mem_push.mp mem with mem | mem
      · exact h.steps name args mem
      · cases mem
    · exact h.steps name args mem

theorem stepped (h : j.Called tokens) (c : Context) (mode : Mode) {step : Step}
    (founded : step.Founded tokens) : (j.stepped c mode step).Called tokens := by
  unfold Journal.stepped
  split
  · refine ⟨h.notices, fun name args mem => ?_⟩
    rcases Array.mem_push.mp mem with mem | rfl
    · exact h.steps name args mem
    · exact founded.called name args rfl
  · exact h

theorem noticed (h : j.Called tokens) {name : String} (called : CallsUnknown tokens name) :
    Journal.Called tokens { j with notices := j.notices.push (.unknownFunction name) } where
  notices other mem := by
    rcases Array.mem_push.mp mem with mem | same
    · exact h.notices other mem
    · cases same
      exact called
  steps := h.steps

end Journal.Called

/-- Readings find unknown functions only where tokens call them. -/
def callAccount (c : Context) : Account c fun _ => True where
  Admits _ := True
  leads _ i _ j := i.Called c.tokens → j.Called c.tokens
  refl _ _ h := h
  trans first second h := second (first h)
  passed _ _ _ _ h := h
  referred _ _ _ h := h.lookedUp c _ _ _
  skipped _ _ _ h := h
  named _ _ _ h := h.lookedUp c _ _ _
  stepped _ _ _ founded h := h.stepped c _ founded
  noticed _ _ _ called h := h.noticed called
  called _ _ along h := along h
  lambda _ := trivial
  made _ _ := trivial

theorem called_of_evaluate (c : Context) (mode : Mode) :
    (evaluate c mode []).journal.Called c.tokens := by
  obtain ⟨returns, faults⟩ := (callAccount c).evaluate mode trivial
  cases h : (evaluate c mode []).outcome with
  | ok v =>
    obtain ⟨_, along, _⟩ := returns v h
    exact along .empty
  | error fault =>
    obtain ⟨_, along⟩ := (faults fault h).1
    exact along .empty

/-! ### Names of functions -/

/-- A word that stands in a text as the name of a function names one. -/
theorem Lexeme.isFunction_of_at? {isFunction : String → Bool} {c : Char} {rest : List Char}
    {lexeme : Lexeme} (h : Lexeme.at? isFunction c rest = some lexeme)
    (kind : lexeme.kind = .function) : isFunction lexeme.text = true := by
  obtain ⟨_, _, _, _, form⟩ := form_of_at? h
  rw [kind] at form
  exact form.isFunction

theorem Token.isFunction_of_scan {isFunction : String → Bool} {position : Nat} {cs : List Char}
    {token : Token} (h : token ∈ Token.scan isFunction position cs)
    (kind : token.kind = .function) : isFunction token.text = true := by
  induction position, cs using Token.scan.induct isFunction with
  | case1 position =>
    unfold Token.scan at h
    simp only [List.mem_singleton] at h
    simp [h] at kind
  | case2 position c rest none ih =>
    unfold Token.scan at h
    simp only [none] at h
    exact ih h
  | case3 position c rest lexeme found ih =>
    unfold Token.scan at h
    simp only [found, List.mem_cons] at h
    rcases h with rfl | h
    · exact Lexeme.isFunction_of_at? found kind
    · exact ih h

theorem not_callsMissing_tokenize {formula name : String} :
    ¬ CallsMissing (tokenize isFunctionName formula).toArray name := by
  rintro ⟨p, here, noLet, noLambda, noMap, missing⟩
  obtain ⟨token, found, named⟩ := Option.bind_eq_some_iff.mp here
  split at named
  · rename_i kind
    cases named
    have mem : token ∈ tokenize isFunctionName formula := by
      simpa using Array.mem_of_getElem? found
    have known := Token.isFunction_of_scan mem kind
    simp [isFunctionName, missing, noLet, noLambda, noMap] at known
  · cases named

/-! ### Checks -/

/-- Whatever fault a check comes across is one of the formula. -/
theorem isOfFormula_of_dryCheck {chars : List Char} {fault : Fault}
    (h : (dryCheck chars).outcome = .error fault) : fault.isOfFormula = true := by
  have ends := endsOnce_tokenize isFunctionName (String.ofList chars)
  have refused : (wellFormed _).RefusesRow _ fault :=
    Discipline.refusesRow_of_evaluate ends trivial .nil h
  have called := ((callAccount _).evaluate .live trivial).2 fault h
  cases fault with
  | pastLastToken => exact refused.elim
  | notInLibrary name => exact absurd (called.2 name rfl) not_callsMissing_tokenize
  | _ => rfl

/-- A check always comes back with a result, and finds a formula valid if and only if there is no
error to report: if the formula is not empty, calls no unknown function and evaluates over an empty
window. No fault of that evaluation is passed on. -/
theorem validate_returns (written : Datum) :
    let chars := formulaChars (writtenText written)
    (∀ fault, (dryCheck chars).outcome = .error fault → fault.isOfFormula = true) ∧
    ∃ v, validate written = .ok v ∧ (v.valid = true ↔ v.error = none) ∧
      (v.valid = true ↔ chars ≠ [] ∧ v.unknownFunctions = [] ∧
        ∃ value, (dryCheck chars).outcome = .ok value) := by
  intro chars
  refine ⟨fun fault => isOfFormula_of_dryCheck, ?_⟩
  have comesBack (fault : Fault) (h : (dryCheck chars).outcome = .error fault) :
      fault.isOfFormula = true := isOfFormula_of_dryCheck h
  unfold validate
  change ∃ v, (if chars.isEmpty then _ else _) = _ ∧ _
  by_cases empty : chars.isEmpty
  · rw [if_pos empty]
    have none : chars = [] := List.isEmpty_iff.mp empty
    exact ⟨_, rfl, by simp [Validation.valid], by simp [Validation.valid, none]⟩
  rw [if_neg empty]
  have notEmpty : chars ≠ [] := by simpa using empty
  dsimp only
  split
  · rename_i unknown
    refine ⟨_, rfl, by simp [Validation.valid], ?_⟩
    simp only [Validation.valid, Option.isNone_some, Bool.false_eq_true, false_iff]
    rintro ⟨_, none, _⟩
    simp only [none] at unknown
    cases unknown
  · rename_i known
    cases run : (dryCheck chars).outcome with
    | ok value =>
      refine ⟨_, rfl, by simp [Validation.valid], ?_⟩
      simp only [Validation.valid, Option.isNone_none, true_iff]
      exact ⟨notEmpty, by simpa using known, value, rfl⟩
    | error fault =>
      simp only [comesBack fault run, if_true]
      exact ⟨_, rfl, by simp [Validation.valid], by simp [Validation.valid]⟩

end Quarterly.Formula
