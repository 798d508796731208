import Quarterly.Formula.Mention
import Quarterly.Proofs.Formula.Stretches

/-!
# Mentions along the stretches of a formula

What a formula mentions is found by a quick look of its own, which knows words, quotations and
bracketed indexes, but no tokens. Stretch by stretch both agree: idle characters and marks are
inert, a string that ends on its line is a quotation, a word is a word, and behind a reference both
go on at the same place, whether the quick look took it for a reference or not. They part at strings
that run over the end of a line.
-/

namespace Quarterly.Formula

open Lexeme (isIdle Spelled)

namespace Mention

/-! ### Blanks in place of tabs -/

/-- The column behind a text that starts in a column. -/
def columnAfter (column : Nat) (cs : List Char) : Nat :=
  cs.foldl (fun column c =>
    if c = '\t' then column + (8 - column % 8)
    else if c = '\n' ∨ c = '\r' then 0 else column + 1) column

theorem expandTabs_append (column : Nat) (cs rest : List Char) :
    expandTabs column (cs ++ rest) =
      expandTabs column cs ++ expandTabs (columnAfter column cs) rest := by
  induction cs generalizing column with
  | nil => rfl
  | cons c cs ih =>
    by_cases tab : c = '\t' <;> simp [expandTabs, columnAfter, tab, ih]

theorem mem_expandTabs {c : Char} {column : Nat} {cs : List Char} (h : c ∈ expandTabs column cs) :
    c = ' ' ∨ c ∈ cs ∧ c ≠ '\t' := by
  induction cs generalizing column with
  | nil => simp [expandTabs] at h
  | cons d cs ih =>
    by_cases tab : d = '\t'
    · simp only [expandTabs, tab, if_true, List.mem_append, List.mem_replicate] at h
      rcases h with h | h
      · exact .inl h.2
      · exact (ih h).imp id fun h => ⟨List.mem_cons_of_mem _ h.1, h.2⟩
    · simp only [expandTabs, tab, if_false, List.mem_cons] at h
      rcases h with rfl | h
      · exact .inr ⟨List.mem_cons_self, tab⟩
      · exact (ih h).imp id fun h => ⟨List.mem_cons_of_mem _ h.1, h.2⟩

theorem expandTabs_eq_self {column : Nat} {cs : List Char} (h : '\t' ∉ cs) :
    expandTabs column cs = cs := by
  induction cs generalizing column with
  | nil => rfl
  | cons c cs ih =>
    simp only [List.mem_cons, not_or] at h
    have noTab : c ≠ '\t' := fun hc => h.1 hc.symm
    simp [expandTabs, noTab, ih h.2]

/-! ### Inert characters -/

/-- Whether nothing that is mentioned starts with a character. -/
def isInert (c : Char) : Bool := c != '"' && c != '\'' && !isWordStart c

theorem scan_inert {cs rest : List Char} (h : ∀ c ∈ cs, isInert c = true) :
    scan (cs ++ rest) = scan rest := by
  induction cs with
  | nil => rfl
  | cons c cs ih =>
    have inert := h c List.mem_cons_self
    simp only [isInert, Bool.and_eq_true, bne_iff_ne, Bool.not_eq_true'] at inert
    obtain ⟨⟨double, single⟩, noWord⟩ := inert
    rw [List.cons_append, scan, at?, if_neg (by simp [double, single]), if_neg (by simp [noWord])]
    exact ih fun d hd => h d (List.mem_cons_of_mem _ hd)

theorem scan_inert_expandTabs {column : Nat} {cs rest : List Char}
    (h : ∀ c ∈ cs, isInert c = true) :
    scan (expandTabs column (cs ++ rest)) = scan (expandTabs (columnAfter column cs) rest) := by
  rw [expandTabs_append]
  refine scan_inert fun c hc => ?_
  rcases mem_expandTabs hc with rfl | hc
  · rfl
  · exact h c hc.1

theorem isInert_of_isIdle {c : Char} (h : isIdle c = true) : isInert c = true := by
  simp only [isIdle, Bool.and_eq_true, Bool.not_eq_true'] at h
  obtain ⟨⟨⟨⟨_, double⟩, single⟩, _⟩, noPart⟩ := h
  simp only [Lexeme.isWordPart, Char.isAlphanum, Bool.or_eq_false_iff] at noPart
  simp [isInert, double, single, isWordStart, noPart]

theorem isInert_of_punctuation {c : Char} {kind : TokenKind}
    (h : Lexeme.punctuation? c = some kind) : isInert c = true := by
  unfold Lexeme.punctuation? at h
  split at h <;> cases h <;> rfl

theorem isInert_of_isOperator {c : Char} (h : Lexeme.isOperator c = true) : isInert c = true := by
  have inert : ['+', '-', '*', '/', '%', '>', '<', '=', '!'].all isInert = true := by decide
  exact List.all_eq_true.mp inert c (List.contains_iff_mem.mp h)

theorem isInert_of_large {c : Char} (large : 128 ≤ c.toNat) : isInert c = true := by
  have differs (d : Char) (small : d.toNat < 128) : c ≠ d := by
    rintro rfl
    omega
  have noLetter : c.isAlpha = false := Bool.eq_false_iff.mpr fun h => by
    have := lt_of_isAlpha h
    omega
  simp [isInert, isWordStart, noLetter, differs]

theorem isInert_of_isDigit {c : Char} (h : Text.isDigit c = true) : isInert c = true := by
  revert h
  refine of_ascii (p := fun c => Text.isDigit c = true → isInert c = true) (by decide) ?_ c
  exact fun _ large _ => isInert_of_large large

/-! ### Looking behind a word -/

theorem isIdle_of_isSpace {c : Char} (h : isSpace c = true) : isIdle c = true := by
  simp only [isSpace, Bool.or_eq_true, beq_iff_eq] at h
  rcases h with ((rfl | rfl) | rfl) | rfl <;> decide

theorem isIdle_expandTabs {column : Nat} {cs : List Char} (h : ∀ c ∈ cs, isIdle c = true) :
    ∀ c ∈ expandTabs column cs, isIdle c = true := by
  intro c hc
  rcases mem_expandTabs hc with rfl | hc
  · decide
  · exact h c hc.1

theorem skipSpace_append {cs rest : List Char} (h : ∀ c ∈ cs, isSpace c = true) :
    skipSpace (cs ++ rest) = skipSpace rest := by
  rw [skipSpace, List.dropWhile_append_of_pos h, skipSpace]

/-- A mark is not found where something else comes first. -/
theorem after?_eq_none {mark : Char} {cs rest : List Char} (idle : ∀ c ∈ cs, isIdle c = true)
    (noIdle : isIdle mark = false)
    (next : ∀ c ∈ rest.head?, isSpace c = false ∧ c ≠ mark) : after? mark (cs ++ rest) = none := by
  induction cs with
  | nil =>
    cases rest with
    | nil => rfl
    | cons c rest =>
      obtain ⟨noSpace, differs⟩ := next c rfl
      simp [after?, skipSpace, noSpace, differs]
  | cons c cs ih =>
    have others := ih fun d hd => idle d (List.mem_cons_of_mem _ hd)
    by_cases space : isSpace c = true
    · simpa [after?, skipSpace, space] using others
    · have differs : c ≠ mark := by
        rintro rfl
        rw [idle c List.mem_cons_self] at noIdle
        cases noIdle
      simp [after?, skipSpace, space, differs]

theorem after?_mark {mark : Char} {cs rest : List Char} (spaces : ∀ c ∈ cs, isSpace c = true)
    (noSpace : isSpace mark = false) : after? mark (cs ++ mark :: rest) = some rest := by
  rw [after?, skipSpace_append spaces]
  simp [skipSpace, noSpace]

theorem afterBrackets?_eq_none {cs : List Char} (h : after? '[' cs = none) :
    afterBrackets? cs = none := by
  simp [afterBrackets?, h]

theorem split_of_after? {mark : Char} {cs rest : List Char} (h : after? mark cs = some rest) :
    ∃ spaces, cs = spaces ++ mark :: rest ∧ ∀ c ∈ spaces, isSpace c = true := by
  refine ⟨cs.takeWhile isSpace, ?_, fun c hc => List.mem_takeWhile_imp hc⟩
  unfold after? at h
  split at h
  · rename_i c behind skipped
    split at h
    · rename_i same
      cases h
      rw [← same, ← skipped]
      exact List.takeWhile_append_dropWhile.symm
    · cases h
  · cases h

theorem split_of_afterIndex? {cs rest : List Char} (h : afterIndex? cs = some rest) :
    ∃ index, cs = index ++ rest ∧
      ∀ c ∈ index, isWordPart c = true ∨ Text.isDecimal c = true := by
  unfold afterIndex? at h
  dsimp only at h
  split at h
  · rename_i first behind written
    split at h
    · rename_i decimal
      cases h
      let digits := first :: behind.takeWhile Text.isDecimal
      have split : first :: behind = digits ++ behind.dropWhile Text.isDecimal := by
        simp [digits, List.takeWhile_append_dropWhile]
      have decimals : ∀ c ∈ digits, Text.isDecimal c = true := by
        simpa [digits, decimal] using fun c hc => List.mem_takeWhile_imp hc
      rw [split] at written
      -- A letter may stand in front of the digits.
      split at written
      · rename_i letter more
        split at written
        · rename_i allowed
          refine ⟨letter :: digits, congrArg (List.cons letter) written, ?_⟩
          intro c hc
          rcases List.mem_cons.mp hc with rfl | hc
          · have part : ['Q', 'q', 'P', 'p'].all isWordPart = true := by decide
            exact .inl (List.all_eq_true.mp part c (List.contains_iff_mem.mp allowed))
          · exact .inr (decimals c hc)
        · exact ⟨digits, written, fun c hc => .inr (decimals c hc)⟩
      · cases written
    · cases h
  · cases h

/-- Everything up to the end of what stands in the brackets. -/
theorem split_of_afterBrackets? {cs after : List Char} (h : afterBrackets? cs = some after) :
    ∃ before, cs = before ++ ']' :: after ∧
      ∀ c ∈ before, isSpace c = true ∨ c = '[' ∨ isWordPart c = true ∨ Text.isDecimal c = true := by
  unfold afterBrackets? at h
  obtain ⟨opened, hopened, h⟩ := Option.bind_eq_some_iff.mp h
  obtain ⟨indexed, hindexed, closed⟩ := Option.bind_eq_some_iff.mp h
  obtain ⟨spaces, rfl, isSpaces⟩ := split_of_after? hopened
  obtain ⟨index, skipped, isIndex⟩ := split_of_afterIndex? hindexed
  obtain ⟨spaces', rfl, isSpaces'⟩ := split_of_after? closed
  have split : opened = opened.takeWhile isSpace ++ (index ++ (spaces' ++ ']' :: after)) := by
    rw [← skipped]
    exact List.takeWhile_append_dropWhile.symm
  refine ⟨spaces ++ '[' :: (opened.takeWhile isSpace ++ (index ++ spaces')), ?_, ?_⟩
  · simpa using split
  · intro c hc
    simp only [List.mem_append, List.mem_cons] at hc
    rcases hc with hc | rfl | hc | hc | hc
    · exact .inl (isSpaces c hc)
    · exact .inr (.inl rfl)
    · exact .inl (List.mem_takeWhile_imp hc)
    · exact .inr (.inr (isIndex c hc))
    · exact .inl (isSpaces' c hc)

/-! ### Words and quotations -/

section

variable {c : Char} {more rest : List Char} (start : isWordStart c = true)
  (parts : ∀ c ∈ more, isWordPart c = true) (stops : ∀ c ∈ rest.head?, isWordPart c = false)

include start parts stops

/-- A word without brackets behind it. -/
theorem scan_word (noBrackets : afterBrackets? rest = none) :
    scan (c :: (more ++ rest)) =
      (if (after? '(' rest).isSome then .call (String.ofList (c :: more)) else .word) ::
        scan rest := by
  have noQuote : ¬ (c = '"' ∨ c = '\'') := by
    rintro (rfl | rfl) <;> cases start
  have taken := takeWhile_append_of_stop parts stops
  have behind := dropWhile_append_of_stop parts stops
  have here : at? c (more ++ rest) =
      some (if (after? '(' rest).isSome then .call (String.ofList (c :: more)) else .word,
        more.length) := by
    rw [at?, if_neg noQuote, if_pos start]
    simp only [taken, behind, noBrackets]
    split <;> rfl
  rw [scan, here]
  simp

theorem scan_reference {before after : List Char} (split : rest = before ++ after)
    (brackets : afterBrackets? rest = some after) :
    scan (c :: (more ++ rest)) =
      .reference (String.ofList (c :: (more ++ before))) :: scan after := by
  have noQuote : ¬ (c = '"' ∨ c = '\'') := by
    rintro (rfl | rfl) <;> cases start
  have behind := dropWhile_append_of_stop parts stops
  have width : (more ++ rest).length - after.length = (more ++ before).length := by
    simp [split]
    omega
  have here : at? c (more ++ rest) =
      some (.reference (String.ofList (c :: (more ++ before))), (more ++ before).length) := by
    rw [at?, if_neg noQuote, if_pos start]
    simp only [behind, brackets, width]
    rw [split, ← List.append_assoc, List.take_left]
  rw [scan, here]
  simp only [split, ← List.append_assoc, List.drop_left]

end

/-- A string that ends on its line. -/
theorem scan_quotation {quote : Char} {body rest : List Char}
    (isQuote : quote = '"' ∨ quote = '\'')
    (line : ∀ c ∈ body, c ≠ quote ∧ c ≠ '\n' ∧ c ≠ '\r') :
    scan (quote :: (body ++ quote :: rest)) = .quotation :: scan rest := by
  have after : afterQuotation? quote (body ++ quote :: rest) = some rest := by
    rw [afterQuotation?, List.dropWhile_append_of_pos (by simpa [and_assoc] using line)]
    simp
  have here : at? quote (body ++ quote :: rest) = some (.quotation, (body ++ [quote]).length) := by
    rw [at?, if_pos isQuote, after]
    simp
    omega
  rw [scan, here]
  simp only [show body ++ quote :: rest = (body ++ [quote]) ++ rest by simp, List.drop_left]

/-! ### Stretches -/

theorem head?_expandTabs {column : Nat} {c : Char} {cs : List Char} (noTab : c ≠ '\t') :
    (expandTabs column (c :: cs)).head? = some c := by
  simp [expandTabs, noTab]

theorem isSpace_of_not_isIdle {c : Char} (h : isIdle c = false) : isSpace c = false :=
  Bool.eq_false_iff.mpr fun space => by
    rw [isIdle_of_isSpace space] at h
    cases h

/-- What a word starts with is neither a space nor a bracket. -/
theorem start_of_isWordStart {c : Char} (h : isWordStart c = true) :
    isSpace c = false ∧ c ≠ '[' := by
  have part := Lexeme.isWordPart_of_isWordStart h
  refine ⟨isSpace_of_not_isIdle (by simp [isIdle, part]), ?_⟩
  rintro rfl
  cases h

/-- What a token starts with is no space, and a bracket only if the token is one. -/
theorem head_of_spelled {isFunction : String → Bool} {kind : TokenKind} {text : String}
    {own rest : List Char} (h : Spelled isFunction kind text own rest)
    (noOpening : kind ≠ .leftBracket) :
    ∃ c more, own = c :: more ∧ isSpace c = false ∧ c ≠ '[' := by
  cases h with
  | @mark c _ _ h =>
    refine ⟨c, [], rfl, isSpace_of_not_isIdle (by simp [isIdle, h]), ?_⟩
    rintro rfl
    exact noOpening (Option.some.inj h).symm
  | @operator cs _ notEmpty h =>
    obtain ⟨c, more, rfl⟩ := List.exists_cons_of_ne_nil notEmpty
    have first := h c List.mem_cons_self
    refine ⟨c, more, rfl, isSpace_of_not_isIdle (by simp [isIdle, first]), ?_⟩
    rintro rfl
    cases first
  | string isQuote _ | unclosed isQuote _ =>
    refine ⟨_, _, rfl, ?_⟩
    rcases isQuote with rfl | rfl <;> decide
  | @number cs _ notEmpty h =>
    obtain ⟨c, more, rfl⟩ := List.exists_cons_of_ne_nil notEmpty
    refine ⟨c, more, rfl, ?_⟩
    rcases h c List.mem_cons_self with digit | rfl
    · refine ⟨isSpace_of_not_isIdle (by simp [isIdle, digit]), ?_⟩
      rintro rfl
      revert digit
      decide
    · decide
  | identifier start _ _ _ | function start _ _ => exact ⟨_, _, rfl, start_of_isWordStart start⟩

variable {isFunction : String → Bool} {apart : Prop} {position : Nat} {cs rest : List Char}
  {tokens : List Token}

theorem after?_idle {idles more : List Char} {c : Char} (idle : ∀ c ∈ idles, isIdle c = true)
    (start : isSpace c = false ∧ c ≠ '[') (column : Nat) :
    after? '[' (expandTabs column (idles ++ c :: more)) = none := by
  have noTab : c ≠ '\t' := by
    rintro rfl
    cases start.1
  rw [expandTabs_append]
  refine after?_eq_none (isIdle_expandTabs idle) (by decide) ?_
  rw [head?_expandTabs noTab]
  simpa using start

/-- No bracket is next in front of a stretch. -/
theorem after?_of_stretches (h : Stretches isFunction apart position cs tokens) (column : Nat) :
    after? '[' (expandTabs column cs) = none := by
  cases h with
  | finish idle =>
    have none : after? '[' (expandTabs column cs ++ []) = none :=
      after?_eq_none (isIdle_expandTabs idle) (by decide) (by simp)
    simpa using none
  | token idle spelled noOpening _ _ _ =>
    obtain ⟨c, more, rfl, start⟩ := head_of_spelled spelled noOpening
    exact after?_idle idle start column
  | group idle written _ _ _ _ _ _ _ =>
    obtain ⟨c, more, rfl, start, _⟩ := written.word
    exact after?_idle idle (start_of_isWordStart start) column

/-- The text of a mention that is a reference. -/
def reference? : Mention → Option String
  | reference text => some text
  | _ => none

end Mention

/-- A string ends with its quote, and on the line on which it starts. -/
def Token.EndsOnLine (formula : List Char) (token : Token) : Prop :=
  formula[token.position + token.text.length + 1]? = formula[token.position]? ∧
    ∀ c ∈ token.text.toList, c ≠ '\n' ∧ c ≠ '\r'

namespace Mention

variable {isFunction : String → Bool} {apart : Prop} {position : Nat} {cs rest : List Char}
  {tokens : List Token}

theorem stops_expandTabs (stops : ∀ c ∈ rest.head?, isWordPart c = false) (column : Nat) :
    ∀ c ∈ (expandTabs column rest).head?, isWordPart c = false := by
  cases rest with
  | nil => simp [expandTabs]
  | cons c rest =>
    by_cases tab : c = '\t'
    · have width : 8 - column % 8 = (7 - column % 8) + 1 := by omega
      simp [expandTabs, tab, width, List.replicate_succ]
      decide
    · rw [head?_expandTabs tab]
      exact stops

theorem expandTabs_word {word : List Char} (isWord : IsWord word) (column : Nat) :
    expandTabs column (word ++ rest) = word ++ expandTabs (columnAfter column word) rest := by
  have noTab : '\t' ∉ word := fun h => by
    have := isWord.isWordPart '\t' h
    cases this
  rw [expandTabs_append, expandTabs_eq_self noTab]

/-- A word with no reference behind it. -/
theorem scan_expandTabs_word {word : List Char} (isWord : IsWord word)
    (stops : ∀ c ∈ rest.head?, isWordPart c = false) (column : Nat)
    (noBrackets : afterBrackets? (expandTabs (columnAfter column word) rest) = none) :
    scan (expandTabs column (word ++ rest)) =
      (if (after? '(' (expandTabs (columnAfter column word) rest)).isSome then
        .call (String.ofList word) else .word) ::
        scan (expandTabs (columnAfter column word) rest) := by
  rw [expandTabs_word isWord]
  obtain ⟨c, more, rfl, start, parts⟩ := isWord
  exact scan_word start parts (stops_expandTabs stops _) noBrackets

theorem scan_expandTabs_quotation {quote : Char} {body : List Char}
    (isQuote : quote = '"' ∨ quote = '\'')
    (line : ∀ c ∈ body, c ≠ quote ∧ c ≠ '\n' ∧ c ≠ '\r') (rest : List Char) (column : Nat) :
    ∃ column', scan (expandTabs column (quote :: (body ++ [quote]) ++ rest)) =
      .quotation :: scan (expandTabs column' rest) := by
  have noTab : quote ≠ '\t' := by
    rcases isQuote with rfl | rfl <;> decide
  have noLine : ¬ (quote = '\n' ∨ quote = '\r') := by
    rcases isQuote with rfl | rfl <;> decide
  have split : quote :: (body ++ [quote]) ++ rest = quote :: (body ++ quote :: rest) := by simp
  have expanded : expandTabs column (quote :: (body ++ quote :: rest)) =
      quote :: (expandTabs (column + 1) body ++
        quote :: expandTabs (columnAfter (column + 1) body + 1) rest) := by
    simp only [expandTabs, noTab, noLine, if_false, expandTabs_append]
  refine ⟨columnAfter (column + 1) body + 1, ?_⟩
  rw [split, expanded]
  refine scan_quotation isQuote fun c hc => ?_
  rcases mem_expandTabs hc with rfl | hc
  · rcases isQuote with rfl | rfl <;> decide
  · exact line c hc.1

/-- What stands at a place of a formula. -/
theorem getElem?_of_drop {formula idles more : List Char}
    (h : formula.drop position = idles ++ more) (n : Nat) :
    formula[position + idles.length + n]? = more[n]? := by
  have := congrArg (·[idles.length + n]?) h
  simpa [List.getElem?_append_right, Nat.add_assoc] using this

/-- A token that is no part of a reference mentions none, and the look goes on behind it. -/
theorem scan_token {formula idles own : List Char} {kind : TokenKind} {text : String}
    (idle : ∀ c ∈ idles, isIdle c = true) (spelled : Spelled isFunction kind text own rest)
    (others : Stretches isFunction apart (position + idles.length + own.length) rest tokens)
    (here : formula.drop position = idles ++ (own ++ rest))
    (line : kind = .string → Token.EndsOnLine formula ⟨kind, text, position + idles.length⟩)
    (column : Nat) :
    ∃ ms column', scan (expandTabs column (idles ++ (own ++ rest))) =
      ms ++ scan (expandTabs column' rest) ∧ ms.filterMap reference? = [] := by
  have noBrackets (column : Nat) : afterBrackets? (expandTabs column rest) = none :=
    afterBrackets?_eq_none (after?_of_stretches others column)
  have plain (called : Prop) [Decidable called] (name : String) :
      [if called then Mention.call name else .word].filterMap reference? = [] := by
    split <;> rfl
  rw [scan_inert_expandTabs fun c hc => isInert_of_isIdle (idle c hc)]
  cases spelled with
  | mark h =>
    refine ⟨[], _, scan_inert_expandTabs fun c hc => ?_, rfl⟩
    rw [List.mem_singleton.mp hc]
    exact isInert_of_punctuation h
  | operator _ h =>
    exact ⟨[], _, scan_inert_expandTabs fun c hc => isInert_of_isOperator (h c hc), rfl⟩
  | @string quote body _ isQuote h =>
    have onLine := (line rfl).2
    have inside : ∀ c ∈ body, c ≠ quote ∧ c ≠ '\n' ∧ c ≠ '\r' :=
      fun c hc => ⟨fun same => h (same ▸ hc), onLine c (by simpa using hc)⟩
    obtain ⟨column', look⟩ := scan_expandTabs_quotation isQuote inside rest
      (columnAfter column idles)
    exact ⟨[.quotation], column', look, rfl⟩
  | @unclosed quote body isQuote h =>
    -- The quote that ends the string would stand behind the end of the formula.
    have closed := (line rfl).1
    have atQuote := getElem?_of_drop here 0
    have behind := getElem?_of_drop here (body.length + 1)
    simp only [String.length_ofList, Nat.add_assoc] at closed behind atQuote
    rw [behind, ← Nat.add_zero idles.length, atQuote] at closed
    simp at closed
  | number _ h =>
    refine ⟨[], _, scan_inert_expandTabs fun c hc => ?_, rfl⟩
    rcases h c hc with digit | rfl
    · exact isInert_of_isDigit digit
    · rfl
  | identifier start parts stops _ | function start parts stops =>
    exact ⟨[_], _, scan_expandTabs_word ⟨_, _, rfl, start, parts⟩ stops _ (noBrackets _),
      plain _ _⟩

/-! ### References -/

/-- What stands behind the name of a reference, up to its closing bracket. -/
def innerChars (gap left index right : List Char) : List Char :=
  gap ++ '[' :: (left ++ (index ++ right))

theorem chars_append (name gap left index right rest : List Char) :
    Group.chars name gap left index right ++ rest =
      name ++ (innerChars gap left index right ++ ']' :: rest) := by
  simp [Group.chars, innerChars]

theorem isInert_of_isIndex {token : Token} {index : List Char} (h : token.IsIndex index)
    (number : token.kind = .number) : ∀ c ∈ index, isInert c = true := by
  obtain ⟨_, ⟨name, _⟩ | ⟨_, _, digits⟩⟩ := h
  · rw [number] at name
    cases name
  intro c hc
  rcases digits c hc with digit | rfl
  · exact isInert_of_isDigit digit
  · rfl

section

variable {g : Group} {name gap left index right : List Char}

theorem noClosing_innerChars (written : g.Written isFunction name gap left index right) :
    ∀ c ∈ innerChars gap left index right, c ≠ ']' := by
  intro c hc
  simp only [innerChars, List.mem_append, List.mem_cons] at hc
  rcases hc with hc | rfl | hc | hc | hc
  · exact (bracket_of_notMem (notMem_of_isIdle (written.gap c hc))).2
  · decide
  · exact (bracket_of_notMem (notMem_of_isIdle (written.left c hc))).2
  · exact (bracket_of_notMem (written.inside.notMem c hc)).2
  · exact (bracket_of_notMem (notMem_of_isIdle (written.right c hc))).2

theorem stops_idle {idles more : List Char} {c : Char} (idle : ∀ c ∈ idles, isIdle c = true)
    (stop : isWordPart c = false) : ∀ d ∈ (idles ++ c :: more).head?, isWordPart d = false := by
  intro d hd
  cases idles with
  | nil =>
    obtain rfl : c = d := by simpa using hd
    exact stop
  | cons e idles =>
    obtain rfl : e = d := by simpa using hd
    have idle := idle e List.mem_cons_self
    simp only [isIdle, Bool.and_eq_true, Bool.not_eq_true'] at idle
    exact idle.2

theorem stops_innerChars (written : g.Written isFunction name gap left index right)
    (more : List Char) :
    ∀ c ∈ (innerChars gap left index right ++ more).head?, isWordPart c = false := by
  rw [innerChars, List.append_assoc]
  exact stops_idle written.gap rfl

/-- The look goes on behind the closing bracket of a reference that it takes for one. -/
theorem after_of_afterBrackets? (written : g.Written isFunction name gap left index right)
    {column : Nat} {after : List Char}
    (brackets : afterBrackets?
      (expandTabs column (innerChars gap left index right ++ ']' :: rest)) = some after) :
    ∃ column', after = expandTabs column' rest ∧
      expandTabs column (innerChars gap left index right ++ ']' :: rest) =
        expandTabs column (innerChars gap left index right ++ [']']) ++ after := by
  obtain ⟨before, split, plain⟩ := split_of_afterBrackets? brackets
  have expanded : expandTabs column (innerChars gap left index right ++ ']' :: rest) =
      expandTabs column (innerChars gap left index right) ++
        ']' :: expandTabs (columnAfter column (innerChars gap left index right) + 1) rest := by
    rw [expandTabs_append]
    simp [expandTabs]
  have noClosing : ']' ∉ before := fun h => by
    have closing := plain ']' h
    revert closing
    decide
  have noClosing' : ']' ∉ expandTabs column (innerChars gap left index right) := fun h => by
    rcases mem_expandTabs h with space | ⟨mem, _⟩
    · cases space
    · exact noClosing_innerChars written ']' mem rfl
  obtain ⟨rfl, rfl⟩ := eq_of_first noClosing noClosing' (split.symm.trans expanded)
  refine ⟨_, rfl, ?_⟩
  rw [expanded, expandTabs_append]
  simp [expandTabs]

/-- Inside brackets there is at most a word. -/
theorem scan_innerChars (written : g.Written isFunction name gap left index right)
    (rest : List Char) (column : Nat) :
    ∃ ms column', scan (expandTabs column (innerChars gap left index right ++ ']' :: rest)) =
      ms ++ scan (expandTabs column' rest) := by
  have split : innerChars gap left index right ++ ']' :: rest =
      (gap ++ '[' :: left) ++ (index ++ (right ++ [']'] ++ rest)) := by
    simp [innerChars]
  have before : ∀ c ∈ gap ++ '[' :: left, isInert c = true := by
    intro c hc
    simp only [List.mem_append, List.mem_cons] at hc
    rcases hc with hc | rfl | hc
    · exact isInert_of_isIdle (written.gap c hc)
    · rfl
    · exact isInert_of_isIdle (written.left c hc)
  have behind : ∀ c ∈ right ++ [']'], isInert c = true := by
    intro c hc
    rcases List.mem_append.mp hc with hc | hc
    · exact isInert_of_isIdle (written.right c hc)
    · rw [List.mem_singleton.mp hc]
      rfl
  rw [split, scan_inert_expandTabs before]
  rcases written.inside.2 with ⟨_, word⟩ | ⟨number, _⟩
  · have closing : right ++ [']'] ++ rest = right ++ ']' :: rest := by simp
    have stops : ∀ c ∈ (right ++ [']'] ++ rest).head?, isWordPart c = false := by
      rw [closing]
      exact stops_idle written.right rfl
    have noBrackets (column : Nat) :
        afterBrackets? (expandTabs column (right ++ [']'] ++ rest)) = none := by
      rw [closing]
      exact afterBrackets?_eq_none (after?_idle written.right (by decide) column)
    rw [scan_expandTabs_word word stops _ (noBrackets _), scan_inert_expandTabs behind]
    exact ⟨[_], _, rfl⟩
  · rw [scan_inert_expandTabs (isInert_of_isIndex written.inside number),
      scan_inert_expandTabs behind]
    exact ⟨[], _, rfl⟩

/-- Whatever the look takes the name of a reference for, it comes to the end of the reference. -/
theorem scan_group (written : g.Written isFunction name gap left index right) (rest : List Char)
    (column : Nat) :
    ∃ ms column', scan (expandTabs column (Group.chars name gap left index right ++ rest)) =
      ms ++ scan (expandTabs column' rest) := by
  rw [chars_append]
  cases brackets : afterBrackets? (expandTabs (columnAfter column name)
      (innerChars gap left index right ++ ']' :: rest)) with
  | some after =>
    obtain ⟨column', rfl, split⟩ := after_of_afterBrackets? written brackets
    rw [expandTabs_word written.word]
    obtain ⟨c, more, rfl, start, parts⟩ := written.word
    have stops := stops_expandTabs (stops_innerChars written (']' :: rest))
      (columnAfter column (c :: more))
    exact ⟨[_], column', scan_reference start parts stops split brackets⟩
  | none =>
    obtain ⟨ms, column', inside⟩ := scan_innerChars written rest (columnAfter column name)
    rw [scan_expandTabs_word written.word (stops_innerChars written _) column brackets, inside]
    exact ⟨_ :: ms, column', rfl⟩

end

end Mention

end Quarterly.Formula
