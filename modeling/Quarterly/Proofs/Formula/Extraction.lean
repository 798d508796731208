import Quarterly.Evaluator
import Quarterly.Formula.Validation
import Quarterly.Proofs.Formula.Mentions
import Quarterly.Proofs.Quarter.Order

/-!
# References found without evaluating

The references that a formula mentions are found by a quick look that knows no tokens. An evaluation
that makes no lambda looks every reference up that stands in the formula. If every string ends on
the line on which it starts, both find the same references, except for those that are written with
characters the quick look does not know: tabs, blanks beyond ASCII, points and characters that stand
for nothing (`extractReferences_eq_iff`). A string that runs over the end of a line is not passed
over by the quick look, and what stands in it may be taken for a reference.
-/

namespace Quarterly.Formula

open Lexeme (isIdle)

namespace Mention

/-- Whether a character can stand in a reference that is mentioned. -/
def isPlain (c : Char) : Bool :=
  isWordPart c || Text.isDecimal c || c == ' ' || c == '\n' || c == '\r' || c == '[' || c == ']'

/-! ### References that are mentioned are plain -/

theorem isPlain_of_isWordPart {c : Char} (h : isWordPart c = true) : isPlain c = true := by
  simp [isPlain, h]

theorem isPlain_of_isSpace {c : Char} (h : isSpace c = true) (noTab : c ≠ '\t') :
    isPlain c = true := by
  simp only [isSpace, Bool.or_eq_true, beq_iff_eq, noTab, or_false] at h
  rcases h with (rfl | rfl) | rfl <;> decide

theorem isPlain_of_at? {c : Char} {rest : List Char} {text : String} {extra : Nat}
    (noTab : '\t' ∉ c :: rest) (h : at? c rest = some (.reference text, extra)) :
    ∀ d ∈ text.toList, isPlain d = true := by
  unfold at? at h
  dsimp only at h
  split at h
  · obtain ⟨_, _, same⟩ := Option.map_eq_some_iff.mp h
    cases same
  split at h
  · rename_i start
    split at h
    · rename_i after brackets
      cases h
      obtain ⟨before, behind, parts⟩ := split_of_afterBrackets? brackets
      have whole : rest = (rest.takeWhile isWordPart ++ (before ++ [']'])) ++ after := by
        calc rest = rest.takeWhile isWordPart ++ rest.dropWhile isWordPart :=
              List.takeWhile_append_dropWhile.symm
          _ = _ := by simp [behind]
      have taken : rest.take (rest.length - after.length) =
          rest.takeWhile isWordPart ++ (before ++ [']']) := by
        have width := congrArg List.length whole
        rw [List.length_append] at width
        rw [width, Nat.add_sub_cancel]
        exact (congrArg (List.take _) whole).trans List.take_left
      rw [String.toList_ofList, taken]
      intro d hd
      simp only [List.mem_cons, List.mem_append, List.not_mem_nil, or_false] at hd
      rcases hd with rfl | hd | hd | rfl
      · exact isPlain_of_isWordPart (Lexeme.isWordPart_of_isWordStart start)
      · exact isPlain_of_isWordPart (List.mem_takeWhile_imp hd)
      · have noTab : d ≠ '\t' := by
          rintro rfl
          exact noTab (List.mem_cons_of_mem _ (whole ▸ by simp [hd]))
        rcases parts d hd with space | rfl | part | decimal
        · exact isPlain_of_isSpace space noTab
        · decide
        · exact isPlain_of_isWordPart part
        · simp [isPlain, decimal]
      · decide
    · split at h <;> cases h
  · cases h

theorem isPlain_of_scan {cs : List Char} (noTab : '\t' ∉ cs) {text : String}
    (h : .reference text ∈ scan cs) : ∀ c ∈ text.toList, isPlain c = true := by
  induction cs using scan.induct with
  | case1 =>
    unfold scan at h
    cases h
  | case2 c rest mention extra found ih =>
    unfold scan at h
    simp only [found, List.mem_cons] at h
    rcases h with rfl | h
    · exact isPlain_of_at? noTab found
    · exact ih (fun tab => noTab (List.mem_cons_of_mem _ (List.mem_of_mem_drop tab))) h
  | case3 c rest none ih =>
    unfold scan at h
    simp only [none] at h
    exact ih (fun tab => noTab (List.mem_cons_of_mem _ tab)) h

/-! ### Plain references are mentioned -/

theorem lt_of_isWordPart {c : Char} (h : isWordPart c = true) : c.toNat < 128 := by
  simp only [isWordPart, Char.isAlphanum, Bool.or_eq_true, beq_iff_eq] at h
  rcases h with (h | h) | rfl
  · exact lt_of_isAlpha h
  · have last : '9'.val.toNat = 57 := rfl
    have code : c.toNat = c.val.toNat := rfl
    simp only [Char.isDigit, Bool.and_eq_true, decide_eq_true_eq, ge_iff_le,
      UInt32.le_iff_toNat_le] at h
    omega
  · decide

theorem isDecimal_of_isPlain {c : Char} (digit : Text.isDigit c = true) (plain : isPlain c = true) :
    Text.isDecimal c = true := by
  revert digit plain
  refine of_ascii (p := fun c => Text.isDigit c = true → isPlain c = true → Text.isDecimal c = true)
    (by decide) (fun c large _ plain => ?_) c
  have noPart : isWordPart c = false := Bool.eq_false_iff.mpr fun part => by
    have := lt_of_isWordPart part
    omega
  have differs (d : Char) (small : d.toNat < 128) : c ≠ d := by
    rintro rfl
    omega
  simpa [isPlain, noPart, differs] using plain

theorem isSpace_of_isPlain {c : Char} (idle : isIdle c = true) (plain : isPlain c = true) :
    isSpace c = true := by
  simp only [isIdle, Bool.and_eq_true, Bool.not_eq_true'] at idle
  obtain ⟨⟨⟨⟨⟨mark, _⟩, _⟩, _⟩, noDigit⟩, noPart⟩ := idle
  have noDecimal : Text.isDecimal c = false := by
    simp only [Text.isDigit, Bool.or_eq_false_iff] at noDigit
    exact noDigit.1
  have noOpening : c ≠ '[' := by
    rintro rfl
    cases mark
  have noClosing : c ≠ ']' := by
    rintro rfl
    cases mark
  have noPart : isWordPart c = false := noPart
  simp only [isPlain, noPart, noDecimal, Bool.false_or, Bool.or_eq_true, beq_iff_eq, noOpening,
    noClosing, or_false] at plain
  rcases plain with (rfl | rfl) | rfl <;> decide

theorem noTab_of_isPlain {cs : List Char} (h : ∀ c ∈ cs, isPlain c = true) : '\t' ∉ cs :=
  fun tab => by
    have := h '\t' tab
    revert this
    decide

theorem afterIndex?_number {digits rest : List Char} (notEmpty : digits ≠ [])
    (h : ∀ c ∈ digits, Text.isDecimal c = true)
    (stops : ∀ c ∈ rest.head?, Text.isDecimal c = false) :
    afterIndex? (digits ++ rest) = some rest := by
  obtain ⟨c, more, rfl⟩ := List.exists_cons_of_ne_nil notEmpty
  have first := h c List.mem_cons_self
  have noLetter : ['Q', 'q', 'P', 'p'].contains c = false := Bool.eq_false_iff.mpr fun letter => by
    have noDigit : ['Q', 'q', 'P', 'p'].all (fun c => !Text.isDecimal c) = true := by decide
    have := List.all_eq_true.mp noDigit c (List.contains_iff_mem.mp letter)
    rw [first] at this
    cases this
  simp only [afterIndex?, List.cons_append, noLetter, Bool.false_eq_true, if_false, first, if_true]
  rw [dropWhile_append_of_stop (fun d hd => h d (List.mem_cons_of_mem _ hd)) stops]

theorem afterIndex?_word {letter : Char} {digits rest : List Char}
    (isLetter : letter ∈ ['Q', 'q', 'P', 'p']) (notEmpty : digits ≠ [])
    (h : ∀ c ∈ digits, Text.isDecimal c = true)
    (stops : ∀ c ∈ rest.head?, Text.isDecimal c = false) :
    afterIndex? (letter :: (digits ++ rest)) = some rest := by
  obtain ⟨c, more, rfl⟩ := List.exists_cons_of_ne_nil notEmpty
  have first := h c List.mem_cons_self
  simp only [afterIndex?, List.contains_iff_mem.mpr isLetter, if_true, List.cons_append, first]
  rw [dropWhile_append_of_stop (fun d hd => h d (List.mem_cons_of_mem _ hd)) stops]

theorem digits_of_wordIndex? {word : String} {n : Nat} (h : wordIndex? word = some n) :
    ∃ letter digits, word.toList = letter :: digits ∧ letter ∈ ['Q', 'q', 'P', 'p'] ∧
      digits ≠ [] ∧ ∀ c ∈ digits, Text.isDecimal c = true := by
  unfold wordIndex? at h
  split at h
  · rename_i letter digits split
    split at h
    · cases h
    · rename_i noFault
      simp only [Bool.or_eq_true, List.isEmpty_iff, Bool.not_eq_true', not_or,
        Bool.not_eq_false, List.all_eq_true] at noFault
      refine ⟨letter, digits, split, ?_, noFault.1,
        fun c hc => Lexeme.isDecimal_of_isDigit (noFault.2 c hc)⟩
      grind
  · cases h

/-- The look goes past an index that a quarter has, if it is written with plain characters. -/
theorem afterIndex?_of_isIndex {token : Token} {index rest : List Char} (h : token.IsIndex index)
    {k : Int} (indexed : Rule.quarterIndex token = .ok k) (plain : ∀ c ∈ index, isPlain c = true)
    (stops : ∀ c ∈ rest.head?, Text.isDecimal c = false) :
    afterIndex? (index ++ rest) = some rest := by
  obtain ⟨text, ⟨kind, _⟩ | ⟨kind, notEmpty, digits⟩⟩ := h
  · cases found : wordIndex? token.text with
    | none => simp [Rule.quarterIndex, kind, found] at indexed
    | some n =>
      obtain ⟨letter, digits, split, isLetter, notEmpty, decimal⟩ := digits_of_wordIndex? found
      rw [text, String.toList_ofList] at split
      rw [split, List.cons_append]
      exact afterIndex?_word isLetter notEmpty decimal stops
  · refine afterIndex?_number notEmpty (fun c hc => ?_) stops
    rcases digits c hc with digit | rfl
    · exact isDecimal_of_isPlain digit (plain c hc)
    · have := plain '.' hc
      revert this
      decide

/-- An index does not start with a space. -/
theorem skipSpace_of_isIndex {token : Token} {index rest : List Char} (h : token.IsIndex index) :
    skipSpace (index ++ rest) = index ++ rest := by
  obtain ⟨c, more, rfl, noSpace⟩ : ∃ c more, index = c :: more ∧ isSpace c = false := by
    obtain ⟨_, ⟨_, c, more, rfl, start, _⟩ | ⟨_, notEmpty, digits⟩⟩ := h
    · exact ⟨c, more, rfl, (start_of_isWordStart start).1⟩
    · obtain ⟨c, more, rfl⟩ := List.exists_cons_of_ne_nil notEmpty
      refine ⟨c, more, rfl, ?_⟩
      rcases digits c List.mem_cons_self with digit | rfl
      · exact isSpace_of_not_isIdle (by simp [isIdle, digit])
      · decide
  simp [skipSpace, noSpace]

section

variable {isFunction : String → Bool} {g : Group} {name gap left index right rest : List Char}

theorem afterBrackets?_of_isPlain (written : g.Written isFunction name gap left index right)
    {k : Int} (indexed : Rule.quarterIndex g.inside = .ok k)
    (plain : ∀ c ∈ innerChars gap left index right, isPlain c = true) :
    afterBrackets? (innerChars gap left index right ++ ']' :: rest) = some rest := by
  have spaces {idles : List Char} (idle : ∀ c ∈ idles, isIdle c = true)
      (part : ∀ c ∈ idles, c ∈ innerChars gap left index right) :
      ∀ c ∈ idles, isSpace c = true :=
    fun c hc => isSpace_of_isPlain (idle c hc) (plain c (part c hc))
  have gapSpaces := spaces written.gap (by simp [innerChars]; grind)
  have leftSpaces := spaces written.left (by simp [innerChars]; grind)
  have rightSpaces := spaces written.right (by simp [innerChars]; grind)
  have stops : ∀ c ∈ (right ++ ']' :: rest).head?, Text.isDecimal c = false := by
    intro c hc
    cases right with
    | nil =>
      obtain rfl : ']' = c := by simpa using hc
      decide
    | cons d right =>
      obtain rfl : d = c := by simpa using hc
      have space := rightSpaces d List.mem_cons_self
      simp only [isSpace, Bool.or_eq_true, beq_iff_eq] at space
      rcases space with ((rfl | rfl) | rfl) | rfl <;> decide
  have indexPlain : ∀ c ∈ index, isPlain c = true :=
    fun c hc => plain c (by simp [innerChars, hc])
  have opened : after? '[' (innerChars gap left index right ++ ']' :: rest) =
      some (left ++ (index ++ (right ++ ']' :: rest))) := by
    have found : after? '[' (gap ++ '[' :: (left ++ (index ++ (right ++ ']' :: rest)))) =
        some (left ++ (index ++ (right ++ ']' :: rest))) := after?_mark gapSpaces rfl
    simpa [innerChars] using found
  have atIndex : skipSpace (index ++ (right ++ ']' :: rest)) = index ++ (right ++ ']' :: rest) :=
    skipSpace_of_isIndex written.inside
  rw [afterBrackets?, opened]
  simp only [Option.bind_eq_bind, Option.bind_some, skipSpace_append leftSpaces, atIndex,
    afterIndex?_of_isIndex written.inside indexed indexPlain stops]
  exact after?_mark rightSpaces rfl

/-- A plain reference is mentioned as it is written. -/
theorem scan_group_of_isPlain (written : g.Written isFunction name gap left index right) {k : Int}
    (indexed : Rule.quarterIndex g.inside = .ok k)
    (plain : ∀ c ∈ Group.chars name gap left index right, isPlain c = true) (column : Nat) :
    ∃ column', scan (expandTabs column (Group.chars name gap left index right ++ rest)) =
      .reference (String.ofList (Group.chars name gap left index right)) ::
        scan (expandTabs column' rest) := by
  have inner : ∀ c ∈ innerChars gap left index right, isPlain c = true := fun c hc =>
    plain c (by simp [Group.chars, innerChars] at hc ⊢; grind)
  refine ⟨columnAfter column (Group.chars name gap left index right), ?_⟩
  rw [expandTabs_append, expandTabs_eq_self (noTab_of_isPlain plain), chars_append]
  obtain ⟨c, more, rfl, start, parts⟩ := written.word
  have split : innerChars gap left index right ++ ']' :: expandTabs
      (columnAfter column (Group.chars (c :: more) gap left index right)) rest =
        (innerChars gap left index right ++ [']']) ++ expandTabs
          (columnAfter column (Group.chars (c :: more) gap left index right)) rest := by simp
  have stops := stops_innerChars written (']' :: expandTabs
    (columnAfter column (Group.chars (c :: more) gap left index right)) rest)
  have whole : Group.chars (c :: more) gap left index right =
      c :: (more ++ (innerChars gap left index right ++ [']'])) := by
    simp [Group.chars, innerChars]
  rw [whole] at split stops ⊢
  exact scan_reference start parts stops split (afterBrackets?_of_isPlain written indexed inner)

end

/-! ### References along the stretches -/

/-- Where all strings end on their line and all references are plain, the references that are
mentioned are those of the tokens. -/
theorem references_scan {isFunction : String → Bool} {apart : Prop} {position : Nat}
    {formula cs : List Char} {tokens : List Token}
    (h : Stretches isFunction apart position cs tokens) (here : formula.drop position = cs)
    (line : ∀ token ∈ tokens, token.kind = .string → token.EndsOnLine formula)
    (indexed : ∀ g ∈ groups tokens, ∃ k, Rule.quarterIndex g.inside = .ok k)
    (plain : ∀ g ∈ groups tokens, ∀ c ∈ (g.slice formula).toList, isPlain c = true)
    (column : Nat) :
    (scan (expandTabs column cs)).filterMap reference? =
      (groups tokens).map (·.slice formula) := by
  induction h generalizing column with
  | @finish _ cs idle =>
    have none : scan (expandTabs column (cs ++ [])) =
        scan (expandTabs (columnAfter column cs) []) :=
      scan_inert_expandTabs fun c hc => isInert_of_isIdle (idle c hc)
    rw [List.append_nil] at none
    rw [none]
    simp [expandTabs, scan, groups]
  | token idle spelled _ _ _ others ih =>
    obtain ⟨ms, column', look, noReference⟩ :=
      scan_token idle spelled others here (line _ List.mem_cons_self) column
    rw [groups_cons fun _ => others.firstKind_ne] at indexed plain ⊢
    rw [look, List.filterMap_append, noReference, List.nil_append]
    exact ih (drop_stretch here) (fun token mem => line token (List.mem_cons_of_mem _ mem)) indexed
      plain column'
  | group idle written kind opens closes start stop _ others ih =>
    rw [groups_group kind opens closes] at indexed plain ⊢
    have slice := Group.slice_eq here start stop
    obtain ⟨k, hk⟩ := indexed _ List.mem_cons_self
    have plainHere := plain _ List.mem_cons_self
    rw [slice, String.toList_ofList] at plainHere
    obtain ⟨column', look⟩ := scan_group_of_isPlain written hk plainHere _
    rw [scan_inert_expandTabs fun c hc => isInert_of_isIdle (idle c hc), look, List.map_cons, slice]
    refine congrArg _ (ih (drop_stretch here) ?_ ?_ ?_ column')
    · exact fun token mem => line token (by simp [mem])
    · exact fun g mem => indexed g (List.mem_cons_of_mem _ mem)
    · exact fun g mem => plain g (List.mem_cons_of_mem _ mem)

end Mention

theorem extractReferences_eq (written : String) :
    extractReferences written =
      unique ((Mention.all (formulaChars written)).filterMap Mention.reference?) := rfl

/-- Every reference that is extracted is plain. -/
theorem isPlain_of_mem_extractReferences {written reference : String}
    (h : reference ∈ extractReferences written) :
    ∀ c ∈ reference.toList, Mention.isPlain c = true := by
  rw [extractReferences_eq, unique, Quarter.mem_distinct, List.mem_filterMap] at h
  obtain ⟨mention, mem, same⟩ := h
  cases mention <;> cases same
  refine Mention.isPlain_of_scan (fun tab => ?_) mem
  rcases Mention.mem_expandTabs tab with space | ⟨_, noTab⟩
  · cases space
  · exact noTab rfl

/-- The references with brackets that were looked up for a trace. -/
def recorded (trace : Trace) : List String :=
  (trace.substitutions.filter Substitution.isBracketed).map (·.reference)

/-- Where an evaluation that makes no lambda comes back and all strings end on their line, the
references found without evaluating are those that were looked up if and only if the latter are
written with plain characters. -/
theorem extractReferences_eq_iff (e : Evaluator) (written : String)
    (tracing : e.settings.collectTrace = true)
    (noLambda : Lacks (e.context (formulaChars written)).tokens lambdaName) {value : Value}
    (h : (evaluate (e.context (formulaChars written)) .live []).outcome = .ok value)
    (line : ∀ token ∈ tokenize isFunctionName (String.ofList (formulaChars written)),
      token.kind = .string → token.EndsOnLine (formulaChars written)) :
    ∃ trace, (e.evaluate written).trace = some trace ∧
      (extractReferences written = unique (recorded trace) ↔
        ∀ reference ∈ recorded trace, ∀ c ∈ reference.toList, Mention.isPlain c = true) := by
  let c := e.context (formulaChars written)
  have tokenized : c.IsTokenized := rfl
  have ends : EndsOnce c.tokens := endsOnce_tokenize _ _
  obtain ⟨indexed, noted⟩ := bracketed_of_evaluate (tokenized.telling tracing noLambda) ends h
  have stretches := tokenized.spans.stretches (grouped_of_evaluate ends False.elim h)
  obtain ⟨trace, traced, substitutions, -⟩ := exists_trace tracing written
  refine ⟨trace, traced, ?_⟩
  have names : recorded trace = (groups c.tokens.toList).map (·.slice c.formula) := by
    calc recorded trace = (evaluate c .live []).journal.bracketed.map (·.reference) := by
          rw [recorded, substitutions]
          rfl
      _ = _ := by
          rw [noted, List.map_map]
          rfl
  rw [names]
  constructor
  · intro same reference mem
    have extracted : reference ∈ extractReferences written := by
      rw [same, unique, Quarter.mem_distinct]
      exact mem
    exact isPlain_of_mem_extractReferences extracted
  · intro plain
    have found := Mention.references_scan stretches List.drop_zero line indexed
      (fun g mem => plain _ (List.mem_map_of_mem mem)) 0
    rw [extractReferences_eq]
    exact congrArg unique found

/-- An evaluator without data that keeps a trace. -/
def tracer : Evaluator := ⟨{ collectTrace := true }, [], .ofCells [] [] none⟩

/-- References of all forms, one of them in a string. -/
def plainReferences : String := "IF(Sales[Q2] > Sales [ 1 ], \"Sales[Q3]\", OPM[P0] + Sales[Q2])"

instance (formula : List Char) (token : Token) : Decidable (token.EndsOnLine formula) :=
  have : Decidable (∀ c ∈ token.text.toList, c ≠ '\n' ∧ c ≠ '\r') := List.decidableBAll _ _
  inferInstanceAs (Decidable (_ ∧ _))

theorem extractReferences_plainReferences :
    ∃ trace, (tracer.evaluate plainReferences).trace = some trace ∧
      extractReferences plainReferences = unique (recorded trace) := by
  obtain ⟨value, h⟩ : ∃ value,
      (evaluate (tracer.context (formulaChars plainReferences)) .live []).outcome = .ok value :=
    exists_value (by decide +kernel)
  obtain ⟨trace, traced, same⟩ := extractReferences_eq_iff tracer plainReferences rfl
    (by decide +kernel) h (by decide +kernel)
  refine ⟨trace, traced, same.mpr ?_⟩
  have names : (tracer.evaluate plainReferences).trace.map recorded =
      some ["Sales[Q2]", "Sales [ 1 ]", "OPM[P0]", "Sales[Q2]"] := by decide +kernel
  rw [traced, Option.map_some, Option.some.injEq] at names
  have plain : (recorded trace).all (fun r => r.toList.all Mention.isPlain) = true := by
    rw [names]
    decide
  simpa using plain

/-- Two lines of text, the second one with something like a reference. -/
def twoLines : String := "IF(1, \"a\nCash[Q2]\", 0)"

/-- What stands in a string over several lines may be taken for a reference. -/
theorem extractReferences_in_string :
    ∃ value trace,
      (evaluate (tracer.context (formulaChars twoLines)) .live []).outcome = .ok value ∧
      Lacks (tracer.context (formulaChars twoLines)).tokens lambdaName ∧
      (tracer.evaluate twoLines).trace = some trace ∧
      extractReferences twoLines = ["Cash[Q2]"] ∧ unique (recorded trace) = [] := by
  obtain ⟨value, h⟩ : ∃ value,
      (evaluate (tracer.context (formulaChars twoLines)) .live []).outcome = .ok value :=
    exists_value (by decide +kernel)
  obtain ⟨trace, traced, -⟩ := exists_trace (e := tracer) rfl twoLines
  have names : (tracer.evaluate twoLines).trace.map recorded = some [] := by decide +kernel
  rw [traced, Option.map_some, Option.some.injEq] at names
  refine ⟨value, trace, h, by decide +kernel, traced, by decide +kernel, ?_⟩
  rw [names]
  rfl

end Quarterly.Formula
