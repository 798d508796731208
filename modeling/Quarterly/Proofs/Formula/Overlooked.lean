import Quarterly.Proofs.Formula.Check
import Quarterly.Proofs.Formula.Mentions
import Quarterly.Proofs.Quarter.Order

/-!
# Calls that a check overlooks

A check looks for called names by itself and refuses a formula that calls an unknown one. It sees
every call that an evaluation comes to, with two exceptions: where something other than spaces,
tabs and line ends stands between the name and its parenthesis, and behind a string that runs over
the end of a line. In such a place a valid formula can call an unknown function
(`overlooked_of_unknown_call`).
-/

namespace Quarterly.Formula

open Lexeme (isIdle Spelled)

/-- A call that a check overlooks: something other than spaces stands in front of the parenthesis,
or an earlier string does not end on its line. -/
def Overlooks (formula : List Char) (before : List Token) (word opening : Token) : Prop :=
  (∃ c ∈ (sliceText formula (word.position + word.text.length) opening.position).toList,
    Mention.isSpace c = false) ∨
  ∃ token ∈ before, token.kind = .string ∧ ¬ token.EndsOnLine formula

variable {isFunction : String → Bool} {apart : Prop} {position : Nat}
  {formula cs idles own rest : List Char} {tokens : List Token}

/-- A parenthesis with nothing but idle characters in front of it. -/
theorem Stretches.of_leftParen {opening : Token} {after : List Token}
    (h : Stretches isFunction apart position cs (opening :: after))
    (opens : opening.kind = .leftParen) :
    ∃ idles rest, cs = idles ++ '(' :: rest ∧ opening.position = position + idles.length := by
  cases h with
  | finish _ => cases opens
  | group _ _ kind _ _ _ _ _ _ =>
    rw [kind] at opens
    cases opens
  | token _ spelled _ _ _ _ =>
    obtain rfl := opens
    cases spelled with
    | mark h =>
      unfold Lexeme.punctuation? at h
      split at h <;> cases h
      exact ⟨_, _, rfl, rfl⟩

theorem Overlooks.of_suffix {before : List Token} {word opening : Token} (more : List Token)
    (h : Overlooks formula before word opening) : Overlooks formula (more ++ before) word opening :=
  h.imp id fun ⟨token, mem, h⟩ => ⟨token, List.mem_append_right _ mem, h⟩

/-- A call that is not overlooked is mentioned where its name stands. -/
theorem call_mem_scan_word {text : String} {opening : Token} {after : List Token}
    (idle : ∀ c ∈ idles, isIdle c = true) (spelled : Spelled isFunction .identifier text own rest)
    (others : Stretches isFunction apart (position + idles.length + own.length) rest
      (opening :: after))
    (here : formula.drop position = idles ++ (own ++ rest)) (opens : opening.kind = .leftParen)
    (spaces : ∀ c ∈ (sliceText formula (position + idles.length + text.length)
      opening.position).toList, Mention.isSpace c = true) (column : Nat) :
    .call text ∈ Mention.scan (Mention.expandTabs column (idles ++ (own ++ rest))) := by
  obtain ⟨rfl, isWord, stops, -⟩ := spelled.names
  obtain ⟨gap, behind, rfl, place⟩ := others.of_leftParen opens
  have isSpaces : ∀ c ∈ gap, Mention.isSpace c = true := by
    have next := drop_stretch here
    simpa [sliceText, place, next] using spaces
  rw [Mention.scan_inert_expandTabs fun c hc => Mention.isInert_of_isIdle (idle c hc),
    Mention.scan_expandTabs_word isWord stops _
      (Mention.afterBrackets?_eq_none (Mention.after?_of_stretches others _))]
  have called (column : Nat) :
      (Mention.after? '(' (Mention.expandTabs column (gap ++ '(' :: behind))).isSome = true := by
    rw [Mention.expandTabs_append]
    have spaces' : ∀ c ∈ Mention.expandTabs column gap, Mention.isSpace c = true := by
      intro c hc
      rcases Mention.mem_expandTabs hc with rfl | hc
      · rfl
      · exact isSpaces c hc.1
    have opening : Mention.expandTabs (Mention.columnAfter column gap) ('(' :: behind) =
        '(' :: Mention.expandTabs (Mention.columnAfter column gap + 1) behind := by
      simp [Mention.expandTabs]
    rw [opening, Mention.after?_mark spaces' (by decide)]
    rfl
  rw [if_pos (called _)]
  exact List.mem_cons_self

/-- Every call that is not overlooked is mentioned. -/
theorem call_mem_scan (h : Stretches isFunction apart position cs tokens)
    (here : formula.drop position = cs) {before after : List Token} {word opening : Token}
    (split : tokens = before ++ word :: opening :: after) (named : word.kind = .identifier)
    (opens : opening.kind = .leftParen) (seen : ¬ Overlooks formula before word opening)
    (column : Nat) : .call word.text ∈ Mention.scan (Mention.expandTabs column cs) := by
  induction h generalizing before column with
  | finish _ =>
    have := congrArg List.length split
    simp at this
    omega
  | @token position idles own rest kind text tokens idle spelled _ _ _ others ih =>
    cases before with
    | nil =>
      obtain ⟨rfl, rfl⟩ := List.cons.inj split
      obtain rfl := named
      refine call_mem_scan_word idle spelled others here opens (fun c hc => ?_) column
      exact Bool.not_eq_false _ ▸ fun noSpace => seen (.inl ⟨c, hc, noSpace⟩)
    | cons token before =>
      obtain ⟨rfl, rfl⟩ := List.cons.inj split
      have line (string : kind = .string) :
          Token.EndsOnLine formula ⟨kind, text, position + idles.length⟩ :=
        Classical.byContradiction fun h => seen (.inr ⟨_, List.mem_cons_self, string, h⟩)
      obtain ⟨ms, column', look, _⟩ := Mention.scan_token idle spelled others here line column
      rw [look]
      refine List.mem_append_right _ (ih (drop_stretch here) rfl (fun h => seen ?_) column')
      exact h.of_suffix [_]
  | @group position idles name gap left inside right rest tokens g bracket idle written kind
      brackets closes _ _ _ others ih =>
    match before, split with
    | [], split =>
      obtain ⟨_, rfl, _⟩ := by simpa using split
      rw [brackets] at opens
      cases opens
    | [_], split =>
      obtain ⟨_, rfl, _⟩ := by simpa using split
      rw [brackets] at named
      cases named
    | [_, _], split =>
      obtain ⟨_, _, _, rfl, _⟩ := by simpa using split
      rw [closes] at opens
      cases opens
    | [_, _, _], split =>
      obtain ⟨_, _, _, rfl, _⟩ := by simpa using split
      rw [closes] at named
      cases named
    | first :: second :: third :: fourth :: before, split =>
      obtain ⟨rfl, rfl, rfl, rfl, rfl⟩ := by simpa using split
      obtain ⟨ms, column', look⟩ := Mention.scan_group written rest
        (Mention.columnAfter column idles)
      rw [Mention.scan_inert_expandTabs fun c hc => Mention.isInert_of_isIdle (idle c hc), look]
      refine List.mem_append_right _ (ih (drop_stretch here) rfl (fun h => seen ?_) column')
      exact h.of_suffix [_, _, _, _]

/-! ### Formulas that are stripped again -/

/-- A text does not end with a blank. -/
def EndsVisibly (cs : List Char) : Prop := ∀ c ∈ cs.getLast?, Text.isBlank c = false

theorem endsVisibly_trimChars (cs : List Char) : EndsVisibly (Text.trimChars cs) := by
  intro c hc
  rw [Text.trimChars, List.getLast?_reverse] at hc
  have visible := List.head?_dropWhile_not Text.isBlank (cs.dropWhile Text.isBlank).reverse
  rw [hc] at visible
  simpa using visible

theorem EndsVisibly.of_append (xs : List Char) {ys : List Char} (h : EndsVisibly (xs ++ ys)) :
    EndsVisibly ys := by
  intro c hc
  refine h c ?_
  rw [List.getLast?_append]
  simp [Option.mem_def.mp hc]

theorem EndsVisibly.trimChars_eq {cs : List Char} (h : EndsVisibly cs) :
    Text.trimChars cs = cs.dropWhile Text.isBlank := by
  have visible : EndsVisibly (cs.dropWhile Text.isBlank) :=
    EndsVisibly.of_append (cs.takeWhile Text.isBlank)
      (by rwa [List.takeWhile_append_dropWhile])
  unfold Text.trimChars
  have nothing : (cs.dropWhile Text.isBlank).reverse.dropWhile Text.isBlank =
      (cs.dropWhile Text.isBlank).reverse := by
    cases behind : (cs.dropWhile Text.isBlank).reverse with
    | nil => rfl
    | cons c rest =>
      have isLast : (cs.dropWhile Text.isBlank).getLast? = some c := by
        rw [List.getLast?_eq_head?_reverse, behind]
        rfl
      simp [visible c isLast]
  rw [nothing, List.reverse_reverse]

theorem endsVisibly_formulaChars (written : String) : EndsVisibly (formulaChars written) := by
  have visible := endsVisibly_trimChars written.toList
  unfold formulaChars
  split
  · rename_i rest stripped
    rw [stripped] at visible
    exact visible.of_append ['=']
  · exact visible

/-- Stripping a stripped formula again takes off blanks, and perhaps an equals sign behind them. -/
theorem formulaChars_again (written : String) :
    let chars := formulaChars written
    ∃ blanks, (∀ c ∈ blanks, Text.isBlank c = true) ∧
      (chars = blanks ++ formulaChars (String.ofList chars) ∨
        chars = blanks ++ '=' :: formulaChars (String.ofList chars)) := by
  intro chars
  have split : chars.takeWhile Text.isBlank ++ chars.dropWhile Text.isBlank = chars :=
    List.takeWhile_append_dropWhile
  refine ⟨chars.takeWhile Text.isBlank, fun c hc => List.mem_takeWhile_imp hc, ?_⟩
  rw [formulaChars, String.toList_ofList, (endsVisibly_formulaChars written).trimChars_eq]
  split
  · rename_i rest stripped
    rw [← stripped]
    exact .inr split.symm
  · exact .inl split.symm

theorem Token.scan_blanks {blanks : List Char} (h : ∀ c ∈ blanks, Text.isBlank c = true)
    (position : Nat) (cs : List Char) :
    Token.scan isFunction position (blanks ++ cs) =
      Token.scan isFunction (position + blanks.length) cs := by
  induction blanks generalizing position with
  | nil => rfl
  | cons c blanks ih =>
    have blank := h c List.mem_cons_self
    have none : Lexeme.at? isFunction c (blanks ++ cs) = none := by rw [Lexeme.at?, if_pos blank]
    rw [List.cons_append, Token.scan_of_none none]
    rw [ih fun d hd => h d (List.mem_cons_of_mem _ hd), List.length_cons]
    congr 1
    omega

theorem Token.scan_equals (position : Nat) (cs : List Char) :
    Token.scan isFunction position ('=' :: cs) =
      ⟨.operator, "=", position⟩ :: Token.scan isFunction (position + 1) cs := by
  have single : Lexeme.at? isFunction '=' cs = some ⟨.operator, "=", 0⟩ := by
    have noDouble : cs.head?.any (Lexeme.isDoubleOperator '=') = false := by
      cases cs <;> simp [Lexeme.isDoubleOperator]
    have isBlank : Text.isBlank '=' = false := by decide
    have isOperator : Lexeme.isOperator '=' = true := by decide
    simp [Lexeme.at?, isBlank, Lexeme.punctuation?, noDouble, isOperator]
  rw [Token.scan_of_some single]
  rfl

/-! ### Unknown calls of a valid formula -/

theorem Grouped.tail_of_operator {token : Token} {tokens : List Token}
    (h : Grouped apart (token :: tokens)) (kind : token.kind = .operator) :
    Grouped apart tokens := by
  cases h with
  | finish atEnd =>
    rw [kind] at atEnd
    cases atEnd
  | group name _ _ _ _ _ =>
    rw [kind] at name
    cases name
  | other _ _ _ others => exact others

/-- Somewhere a formula calls a name in a way that a check overlooks. -/
def CallOverlooked (formula : List Char) (name : String) : Prop :=
  ∃ before word opening after,
    tokenize isFunctionName (String.ofList formula) = before ++ word :: opening :: after ∧
    word.kind = .identifier ∧ word.text = name ∧ opening.kind = .leftParen ∧
    Overlooks formula before word opening

theorem CallsUnknown.split {name : String} (h : CallsUnknown tokens.toArray name) :
    ∃ before word opening after, tokens = before ++ word :: opening :: after ∧
      word.kind = .identifier ∧ word.text = name ∧ opening.kind = .leftParen := by
  obtain ⟨p, named, opens⟩ := h
  obtain ⟨opening, isOpening, second⟩ := exists_of_kindAt opens
  obtain ⟨word, found, named⟩ := Option.bind_eq_some_iff.mp named
  split at named
  · rename_i kind
    refine ⟨tokens.take p, word, opening, tokens.drop (p + 2), ?_, kind, Option.some.inj named,
      isOpening⟩
    rw [← second, ← drop_of_token found, List.take_append_drop]
  · cases named

/-- A call that is not overlooked is mentioned, also after the formula is stripped again. -/
theorem call_mem_all {written : String} {before after : List Token} {word opening : Token}
    (grouped : Grouped apart (tokenize isFunctionName (String.ofList (formulaChars written))))
    (split : tokenize isFunctionName (String.ofList (formulaChars written)) =
      before ++ word :: opening :: after)
    (named : word.kind = .identifier) (opens : opening.kind = .leftParen)
    (seen : ¬ Overlooks (formulaChars written) before word opening) :
    .call word.text ∈ Mention.all (formulaChars (String.ofList (formulaChars written))) := by
  obtain ⟨blanks, isBlanks, stripped⟩ := formulaChars_again written
  generalize formulaChars (String.ofList (formulaChars written)) = again at stripped ⊢
  generalize formulaChars written = chars at *
  rw [tokenize, String.toList_ofList] at grouped split
  rcases stripped with rfl | rfl
  · rw [Token.scan_blanks isBlanks, Nat.zero_add] at grouped split
    exact call_mem_scan ((Token.spans_scan _ _ _).stretches grouped) List.drop_left split named
      opens seen 0
  · rw [Token.scan_blanks isBlanks, Token.scan_equals, Nat.zero_add] at grouped split
    have spans := Token.spans_scan isFunctionName (blanks.length + 1) again
    have here : (blanks ++ '=' :: again).drop (blanks.length + 1) = again := by simp
    cases before with
    | nil =>
      obtain ⟨rfl, _⟩ := List.cons.inj split
      cases named
    | cons equals before =>
      obtain ⟨rfl, others⟩ := List.cons.inj split
      exact call_mem_scan (spans.stretches (grouped.tail_of_operator rfl)) here others named opens
        (fun h => seen (h.of_suffix [_])) 0

section

variable {written : Datum} {v : Validation}

/-- A valid formula mentions no call of an unknown function. -/
theorem known_of_valid (h : validate written = .ok v) (valid : v.valid = true) {name : String}
    (called : .call name ∈
      Mention.all (formulaChars (String.ofList (formulaChars (writtenText written))))) :
    isFunctionName (name.map Char.toUpper) = true := by
  have listed : name.map Char.toUpper ∈
      extractFunctions (String.ofList (formulaChars (writtenText written))) := by
    rw [extractFunctions, List.mem_mergeSort, unique, Quarter.mem_distinct]
    exact List.mem_filterMap.mpr ⟨_, called, rfl⟩
  unfold validate at h
  generalize formulaChars (writtenText written) = chars at h listed
  dsimp only at h
  split at h
  · cases h
    cases valid
  split at h
  · cases h
    cases valid
  rename_i noneUnknown
  have known : ∀ name ∈ extractFunctions (String.ofList chars), isFunctionName name = true := by
    simpa using noneUnknown
  exact known _ listed

/-- The tokens of a valid formula fall apart into references and other tokens. -/
theorem grouped_of_valid (h : validate written = .ok v) (valid : v.valid = true) :
    Grouped False
      (tokenize isFunctionName (String.ofList (formulaChars (writtenText written)))) := by
  obtain ⟨value, checks⟩ := ok_of_valid h valid
  exact grouped_of_evaluate (endsOnce_tokenize _ _) False.elim checks

/-- What an evaluation of a valid formula finds to be an unknown function, be it in a notice or in a
step of its trace, is called in a way that the check overlooks. -/
theorem overlooked_of_unknown_call (h : validate written = .ok v) (valid : v.valid = true)
    (e : Evaluator) {name : String}
    (unknown : .unknownFunction name ∈ (e.evaluate (writtenText written)).notices ∨
      ∃ trace, (e.evaluate (writtenText written)).trace = some trace ∧
        ∃ args, .unknownCall name args ∈ trace.steps) :
    CallOverlooked (formulaChars (writtenText written)) name := by
  let chars := formulaChars (writtenText written)
  have founded := called_of_evaluate (e.context chars) .live
  have called : CallsUnknown (e.context chars).tokens name := by
    rcases unknown with notice | ⟨trace, traced, args, step⟩
    · rcases List.mem_append.mp notice with notice | fault
      · exact founded.notices name (by simpa using notice)
      · unfold Evaluator.faultNotice at fault
        split at fault <;> simp at fault
    · simp only [Evaluator.evaluate, Evaluator.report] at traced
      split at traced
      · cases traced
        exact founded.steps name args (by simpa using step)
      · cases traced
  obtain ⟨before, word, opening, after, split, named, rfl, opens⟩ := called.split
  refine ⟨before, word, opening, after, split, named, rfl, opens, ?_⟩
  by_contra seen
  have known := known_of_valid h valid
    (call_mem_all (grouped_of_valid h valid) split named opens seen)
  -- The tokenizer would have taken the word for a function.
  have inside : before.length < (tokenize isFunctionName (String.ofList chars)).length := by
    rw [split]
    simp
  obtain ⟨n, spans⟩ := (Token.spans_scan isFunctionName 0 _).drop inside
  change Token.Spans _ _ _ ((tokenize isFunctionName (String.ofList chars)).drop _) at spans
  rw [split, List.drop_left] at spans
  obtain ⟨_, _, _, _, _, spelled, _⟩ := spans.uncons (by simp [named])
  rw [named] at spelled
  rw [spelled.names.noFunction] at known
  cases known

end

/-- A call with a character between the name and the parenthesis that no token starts with. -/
def hashedCall : String := "FOO#(1)"

/-- An evaluator without data. -/
def dataless : Evaluator := ⟨{}, [], .ofCells [] [] none⟩

theorem valid_hashedCall : ∃ v, validate (.text hashedCall) = .ok v ∧ v.valid = true :=
  Except.exists_ok_of_any (by decide +kernel)

/-- The function that a notice finds unknown. -/
def Notice.unknown? : Notice → Option String
  | .unknownFunction name => some name
  | _ => none

theorem notices_hashedCall :
    .unknownFunction "FOO" ∈ (dataless.evaluate (writtenText (.text hashedCall))).notices := by
  have noticed : "FOO" ∈
      (dataless.evaluate (writtenText (.text hashedCall))).notices.filterMap Notice.unknown? := by
    decide +kernel
  obtain ⟨notice, mem, same⟩ := List.mem_filterMap.mp noticed
  cases notice <;> cases same
  exact mem

theorem overlooked_of_unknown_call_hashed :
    ∃ v, validate (.text hashedCall) = .ok v ∧ v.valid = true ∧
      CallOverlooked (formulaChars (writtenText (.text hashedCall))) "FOO" := by
  obtain ⟨v, h, valid⟩ := valid_hashedCall
  exact ⟨v, h, valid, overlooked_of_unknown_call h valid dataless (.inl notices_hashedCall)⟩

/-- An evaluation of a formula that is found valid may come across an unknown function. -/
theorem valid_formula_with_unknown_call :
    ∃ v, validate (.text hashedCall) = .ok v ∧ v.valid = true ∧
      .unknownFunction "FOO" ∈ (dataless.evaluate (writtenText (.text hashedCall))).notices := by
  obtain ⟨v, h, valid⟩ := valid_hashedCall
  exact ⟨v, h, valid, notices_hashedCall⟩

end Quarterly.Formula
