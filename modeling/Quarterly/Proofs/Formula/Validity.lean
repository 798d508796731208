import Quarterly.Evaluator
import Quarterly.Formula.Validation
import Quarterly.Proofs.Formula.Decision
import Quarterly.Proofs.Formula.Lexemes

/-!
# Valid formulas are well formed

A formula is checked once, over an empty window. Another table leads to other values, other calls
and other arguments of lambdas, but the tokens stay the same, and the check has found them to be an
expression. So no evaluation of a valid formula blames the tokens, whatever is read again: the
formula, the bodies that are skipped and the bodies that are called.
-/

namespace Quarterly.Formula

/-! ### Rows of tokens of texts -/

theorem Lexeme.kind_ne_endMark {isFunction : String → Bool} {c : Char} {rest : List Char}
    {lexeme : Lexeme} (h : Lexeme.at? isFunction c rest = some lexeme) :
    lexeme.kind ≠ .endMark := by
  obtain ⟨_, _, _, _, form⟩ := form_of_at? h
  exact form.ne_endMark

/-- A text is read as a row of tokens that ends with its only end mark. -/
theorem Token.exists_scan_eq (isFunction : String → Bool) (position : Nat) (cs : List Char) :
    ∃ before last, Token.scan isFunction position cs = before ++ [last] ∧ last.kind = .endMark ∧
      ∀ token ∈ before, token.kind ≠ .endMark := by
  induction position, cs using Token.scan.induct isFunction with
  | case1 position =>
    refine ⟨[], ⟨.endMark, "", position⟩, ?_, rfl, by simp⟩
    unfold Token.scan
    rfl
  | case2 position c rest h ih =>
    obtain ⟨before, last, hs, hl, hb⟩ := ih
    refine ⟨before, last, ?_, hl, hb⟩
    unfold Token.scan
    simp only [h]
    exact hs
  | case3 position c rest lexeme h ih =>
    obtain ⟨before, last, hs, hl, hb⟩ := ih
    refine ⟨⟨lexeme.kind, lexeme.text, position⟩ :: before, last, ?_, hl, ?_⟩
    · unfold Token.scan
      simp [h, hs]
    · simpa using ⟨Lexeme.kind_ne_endMark h, hb⟩

theorem endsOnce_tokenize (isFunction : String → Bool) (formula : String) :
    EndsOnce (tokenize isFunction formula).toArray := by
  obtain ⟨before, last, hs, hl, hb⟩ := Token.exists_scan_eq isFunction 0 formula.toList
  rw [tokenize, hs]
  refine ⟨by simp, fun p => ?_⟩
  simp only [kindAt, List.getElem?_toArray, List.size_toArray, List.length_append,
    List.length_singleton]
  rcases Nat.lt_trichotomy p before.length with h | rfl | h
  · have notEnd := hb _ (List.getElem_mem h)
    simp [List.getElem?_append_left h, List.getElem?_eq_getElem h, notEnd]
    omega
  · simp [hl]
  · have past : (before ++ [last]).length ≤ p := by simp; omega
    rw [List.getElem?_eq_none past]
    simp
    omega

/-! ### The discipline of evaluations -/

/-- The body of a lambda is an expression between the places where it was recorded, with references
that have indexes. -/
def Lambda.Readable (tokens : Array Token) (f : Lambda) : Prop :=
  ∃ n, ReadsWithin tokens n .expression f.start f.stop

/-- A fault that neither blames the tokens nor runs out of them. -/
def Fault.WellFormed : Fault → Prop
  | malformed .. | pastLastToken => False
  | _ => True

theorem wellFormed_of_library {fault : Fault} (h : fault.OfLibrary) : fault.WellFormed := by
  cases h <;> trivial

theorem wellFormed_numeralValue {text : String} {fault : Fault}
    (h : numeralValue text = .error fault) : fault.WellFormed := by
  unfold numeralValue at h
  split at h <;> cases h
  trivial

/-- In evaluations of any mode every lambda has a body, and no computation on values blames the
tokens. -/
def wellFormed (tokens : Array Token) : Discipline tokens where
  Admits := fun _ => True
  Good := fun v => v.EveryLambda (Lambda.Readable tokens)
  Allows := Fault.WellFormed
  dry := trivial
  ordinary h problem position hf := by
    rw [hf] at h
    exact h
  null := .scalar trivial
  bool _ := .scalar trivial
  text _ := .scalar trivial
  array := .array
  lambda h := .lambda ⟨_, h⟩
  numeral := by
    intro p token _ _
    cases h : numeralValue token.text with
    | ok x => exact .scalar (Value.isScalar_ofFinite _)
    | error fault => exact wellFormed_numeralValue h
  index := by
    intro p token _ _ kind
    cases h : Rule.quarterIndex token with
    | ok index => trivial
    | error fault =>
      rcases fault_quarterIndex h with ⟨-, noNumber, -⟩ | ⟨-, noValue | ⟨cause, rfl⟩⟩
      · exact absurd kind noNumber
      · exact wellFormed_numeralValue noValue
      · trivial
  arithmetic := by
    intro op a b _ _
    cases h : arithmetic op a b with
    | ok v => exact .scalar (isScalar_arithmetic h)
    | error cause => trivial
  comparison := by
    intro op a b _ _
    cases comparison op a b with
    | ok v => trivial
    | error cause => trivial
  negate _ := .scalar (isScalar_negate _)
  percent := by
    intro n _
    cases h : percent n with
    | ok v => exact .scalar (isScalar_percent h)
    | error cause => trivial
  found _ found := .scalar (isScalar_lookupValue found)
  tooDeep _ _ := trivial
  notInLibrary _ _ := trivial
  builtin := by
    intro _ builtin args h
    cases ha : builtin.apply args with
    | ok answer => exact Value.EveryLambda.answer h ha
    | error fault => exact wellFormed_of_library (Builtin.fault_apply ha)
  mapping := by
    intro _ args h
    cases hm : Library.mapArguments args with
    | ok r =>
      obtain ⟨identity, hlambda, hitems⟩ := Library.mapArguments_eq_ok hm
      refine ⟨?_, (hlambda ▸ Value.EveryLambda.getD h 1).of_lambda⟩
      rw [← hitems]
      exact (Value.EveryLambda.getD h 0).toItems
    | error fault =>
      rcases Library.fault_mapArguments hm with rfl | h
      · trivial
      · exact wellFormed_of_library h

/-! ### Valid formulas -/

variable {written : Datum} {v : Validation}

theorem ok_of_valid (h : validate written = .ok v) (valid : v.valid = true) :
    ∃ value, (dryCheck (formulaChars (writtenText written))).outcome = .ok value := by
  unfold validate at h
  generalize formulaChars (writtenText written) = chars at h ⊢
  dsimp only at h
  split at h
  · cases h
    cases valid
  split at h
  · cases h
    cases valid
  cases run : (dryCheck chars).outcome with
  | ok value => exact ⟨value, rfl⟩
  | error fault =>
    simp only [run] at h
    split at h
    · cases h
      cases valid
    · cases h

/-- Whatever the table, the selection and the settings: no evaluation of a valid formula finds its
tokens malformed. -/
theorem wellFormed_of_valid (h : validate written = .ok v) (valid : v.valid = true)
    (e : Evaluator) (problem : SyntaxFault) (position : Nat) :
    (evaluate (e.context (formulaChars (writtenText written))) .live []).outcome ≠
      .error (.malformed problem position) := by
  intro malformed
  let chars := formulaChars (writtenText written)
  have ends := endsOnce_tokenize isFunctionName (String.ofList chars)
  obtain ⟨value, checked⟩ := ok_of_valid h valid
  have reads : ReadsRow (e.context chars).tokens 64 :=
    Discipline.readsRow_of_evaluate (D := wellFormed _) ends trivial .nil checked
  have refused : (wellFormed (e.context chars).tokens).RefusesRow _ (.malformed problem position) :=
    Discipline.refusesRow_of_evaluate ends trivial .nil malformed
  exact refused 64 reads

theorem wellFormed_of_valid_count :
    ∃ v, validate (.text "=COUNT(Sales[Q2])") = .ok v ∧ v.valid = true ∧
      (evaluate ((⟨{}, [], .ofCells [] [] none⟩ : Evaluator).context
        (formulaChars "=COUNT(Sales[Q2])")) .live []).outcome ≠
          .error (.malformed .endOfFormula 16) := by
  have found : (validate (.text "=COUNT(Sales[Q2])")).toOption.any Validation.valid = true := by
    decide +kernel
  cases h : validate (.text "=COUNT(Sales[Q2])") with
  | error fault =>
    rw [h] at found
    cases found
  | ok v =>
    rw [h] at found
    have valid : v.valid = true := found
    exact ⟨v, rfl, valid, wellFormed_of_valid h valid _ .endOfFormula 16⟩

end Quarterly.Formula
