import Quarterly.Proofs.Formula.Coverage
import Quarterly.Proofs.Formula.Exact

/-!
# Reading segments

Replacing references works on the segments of a formula inside and outside quotes, and its result is
put together from them. Such a text is read segment by segment: no token reaches over the start of a
string, and none over the start of a word that no word runs into. So whether a reference stands
among its tokens can be told from the segments outside quotes (`Alternate.hasReference_of_mem`,
`Alternate.hasReference_eq_false`).
-/

namespace Quarterly.Formula

open Lexeme (isIdle isWordStart isWordPart Form Spelled)

/-- Whether a name with an opening bracket directly behind it stands among some tokens. -/
def hasReference : List Token → Bool
  | name :: opening :: rest =>
    (name.kind = .identifier && opening.kind = .leftBracket) || hasReference (opening :: rest)
  | _ => false

variable {isFunction : String → Bool}

/-! ### References among tokens -/

theorem hasReference_cons {token : Token} {tokens : List Token}
    (h : hasReference tokens = true) : hasReference (token :: tokens) = true := by
  cases tokens with
  | nil => cases h
  | cons next tokens => simp [hasReference, h]

theorem hasReference_append {tokens : List Token} (front : List Token)
    (h : hasReference tokens = true) : hasReference (front ++ tokens) = true := by
  induction front with
  | nil => exact h
  | cons token front ih => exact hasReference_cons ih

theorem hasReference_eq_false {tokens : List Token} (h : ∀ t ∈ tokens, t.kind ≠ .leftBracket) :
    hasReference tokens = false := by
  induction tokens with
  | nil => rfl
  | cons token tokens ih =>
    have others := ih fun t ht => h t (List.mem_cons_of_mem _ ht)
    cases tokens with
    | nil => rfl
    | cons next tokens => simp [hasReference, others, h next (by simp)]

/-! ### Reading over a boundary -/

/-- No word ends with some characters; a number can. -/
def EndsNoWord (front : List Char) : Prop := ∀ word, word <:+ front → ¬ IsWord word

/-- Where no word reaches, characters that no word starts with make none. -/
theorem endsNoWord {front run : List Char} (free : ∀ c ∈ front.getLast?, isWordPart c = false)
    (noStart : ∀ c ∈ run, isWordStart c = false) : EndsNoWord (front ++ run) := by
  rintro word ⟨xs, split⟩ ⟨c, more, rfl, start, parts⟩
  have inRun : c ∉ run := fun mem => by
    rw [noStart c mem] at start
    cases start
  rcases List.append_eq_append_iff.mp split with ⟨ys, rfl, same⟩ | ⟨ys, _, rfl⟩
  · rcases List.eq_nil_or_concat ys with rfl | ⟨zs, d, rfl⟩
    · rw [List.nil_append] at same
      exact inRun (same ▸ List.mem_cons_self)
    · have part := IsWord.isWordPart ⟨c, more, rfl, start, parts⟩ d (same ▸ by simp)
      rw [free d (by simp)] at part
      cases part
  · exact inRun (by simp)

theorem IsWord.of_append {front behind : List Char} (h : IsWord (front ++ behind))
    (notEmpty : front ≠ []) : IsWord front := by
  obtain ⟨c, more, split, start, parts⟩ := h
  obtain ⟨d, front, rfl⟩ := List.exists_cons_of_ne_nil notEmpty
  obtain ⟨rfl, rfl⟩ := List.cons.inj split
  exact ⟨d, front, rfl, start, fun e he => parts e (List.mem_append_left _ he)⟩

/-- No token reaches over the boundary between two texts: a string starts behind it, or a word that
no word runs into. -/
def Boundary (front rest : List Char) : Prop :=
  ∀ d ∈ rest.head?, (d = '"' ∨ d = '\'') ∨ isWordStart d = true ∧ EndsNoWord front

theorem Boundary.of_append (xs : List Char) {front rest : List Char}
    (h : Boundary (xs ++ front) rest) : Boundary front rest := fun d hd =>
  (h d hd).imp_right fun ⟨start, free⟩ =>
    ⟨start, fun word ends => free word (ends.trans (List.suffix_append xs front))⟩

/-- Nothing in a token is a boundary, unless the token is a string. -/
theorem Lexeme.Spelled.not_boundary {kind : TokenKind} {text : String}
    {own rest front behind : List Char} (h : Spelled isFunction kind text own rest)
    (noString : kind ≠ .string) (split : own = front ++ behind) (inFront : front ≠ [])
    (isBehind : behind ≠ []) : ¬ Boundary front behind := by
  intro boundary
  have first : behind.head isBehind ∈ own := split ▸ List.mem_append_right _ (List.head_mem _)
  have ofWord (word : IsWord own) : behind.head isBehind ∉ delimiters ∧ ¬ EndsNoWord front := by
    refine ⟨notMem_of_isWordPart (word.isWordPart _ first), fun free => ?_⟩
    exact free front (List.suffix_refl front) ((split ▸ word).of_append inFront)
  obtain ⟨noQuote, noWord⟩ : behind.head isBehind ∉ delimiters ∧
      (isWordStart (behind.head isBehind) = true → ¬ EndsNoWord front) := by
    cases h with
    | @mark c =>
      have lengths := congrArg List.length split
      have := List.length_pos_of_ne_nil inFront
      have := List.length_pos_of_ne_nil isBehind
      simp only [List.length_singleton, List.length_append] at lengths
      omega
    | operator _ inside =>
      refine ⟨notMem_of_all (by decide) (inside _ first), fun start => ?_⟩
      have among := List.contains_iff_mem.mp (inside _ first)
      exact absurd among (notMem_of_all (by decide) start)
    | string | unclosed => exact absurd rfl noString
    | number _ inside =>
      refine ⟨notMem_of_isDigit_or (inside _ first), fun start => ?_⟩
      rcases inside _ first with digit | point
      · rw [isDigit_of_isWordStart start] at digit
        cases digit
      · rw [point] at start
        cases start
    | identifier start parts | function start parts =>
      obtain ⟨noQuote, noWord⟩ := ofWord ⟨_, _, rfl, start, parts⟩
      exact ⟨noQuote, fun _ => noWord⟩
  rcases boundary _ (List.head?_eq_some_head isBehind) with quote | ⟨start, free⟩
  · exact quote.elim (quote_of_notMem noQuote).1 (quote_of_notMem noQuote).2
  · exact noWord start free

/-- A token that starts in front of a boundary ends there, if it is no string. -/
theorem Lexeme.Form.exists_of_boundary {kind : TokenKind} {text : String} {c : Char}
    {more after front rest : List Char} (h : Form isFunction kind text (c :: more) after)
    (noQuote : c ≠ '"' ∧ c ≠ '\'') (boundary : Boundary (c :: front) rest)
    (split : front ++ rest = more ++ after) :
    ∃ between, front = more ++ between ∧ after = between ++ rest := by
  have noString : kind ≠ .string := by
    rintro rfl
    generalize same : c :: more = own at h
    cases h with
    | mark h => cases isMark_of_punctuation h
    | string isQuote | unclosed isQuote =>
      cases same
      exact isQuote.elim noQuote.1 noQuote.2
  rcases List.append_eq_append_iff.mp split with ⟨beyond, rfl, rfl⟩ | ⟨between, rfl, rfl⟩
  · by_cases none : beyond = []
    · subst none
      exact ⟨[], by simp, rfl⟩
    · refine absurd (fun d hd => boundary d ?_)
        (h.spelled.not_boundary noString rfl (List.cons_ne_nil c front) none)
      rwa [List.head?_append_of_ne_nil _ none]
  · exact ⟨between, rfl, rfl⟩

/-- A text is read up to a boundary and then from there on, if no string stands in front. -/
theorem Token.scan_append (isFunction : String → Bool) {front rest : List Char}
    (noQuote : ∀ c ∈ front, c ≠ '"' ∧ c ≠ '\'') (boundary : Boundary front rest)
    (position : Nat) :
    ∃ tokens, Token.scan isFunction position (front ++ rest) =
        tokens ++ Token.scan isFunction (position + front.length) rest ∧
      ∀ t ∈ tokens, t.kind = .leftBracket → '[' ∈ front := by
  generalize whole : front ++ rest = cs
  induction position, cs using Token.scan.induct isFunction generalizing front with
  | case1 position =>
    obtain ⟨rfl, rfl⟩ := List.append_eq_nil_iff.mp whole
    exact ⟨[], rfl, by simp⟩
  | case2 position c cs none ih =>
    cases front with
    | nil => exact ⟨[], by simpa using congrArg _ whole.symm, by simp⟩
    | cons d front =>
      obtain ⟨rfl, rfl⟩ := List.cons.inj whole
      obtain ⟨tokens, read, brackets⟩ :=
        ih (fun c hc => noQuote c (List.mem_cons_of_mem _ hc)) (Boundary.of_append [d] boundary) rfl
      refine ⟨tokens, ?_, fun t ht kind => List.mem_cons_of_mem _ (brackets t ht kind)⟩
      rw [Token.scan_of_none none, read, List.length_cons, Nat.add_right_comm, Nat.add_assoc]
  | case3 position c cs lexeme found ih =>
    cases front with
    | nil => exact ⟨[], by simpa using congrArg _ whole.symm, by simp⟩
    | cons d front =>
      obtain ⟨rfl, rfl⟩ := List.cons.inj whole
      obtain ⟨more, after, split, extra, form⟩ := Lexeme.form_of_at? found
      obtain ⟨between, rfl, rfl⟩ :=
        form.exists_of_boundary (noQuote d List.mem_cons_self) boundary split
      rw [← extra, split, List.drop_left] at ih
      obtain ⟨tokens, read, brackets⟩ :=
        ih (fun c hc => noQuote c (by simp [hc])) (Boundary.of_append (d :: more) boundary) rfl
      have stop : position + 1 + more.length + between.length =
          position + (d :: (more ++ between)).length := by
        simp only [List.length_cons, List.length_append]
        omega
      rw [Token.scan_of_some found, ← extra, split, List.drop_left, read, stop]
      refine ⟨_ :: tokens, rfl, List.forall_mem_cons.mpr ⟨fun kind => ?_, fun t ht kind => ?_⟩⟩
      · have opening := form.spelled
        rw [show lexeme.kind = .leftBracket from kind] at opening
        rw [(List.cons.inj opening.isOpening).1]
        exact List.mem_cons_self
      · have := brackets t ht kind
        simp [this]

/-! ### Segments inside and outside quotes -/

/-- Segments outside quotes and strings take turns. Only the last string may lack its closing quote;
nothing stands behind it then. -/
inductive Alternate : List Segment → Prop where
  | last {cs} (noQuote : ∀ c ∈ cs, c ≠ '"' ∧ c ≠ '\'') : Alternate [⟨false, cs⟩]
  | string {cs quote body segments} (noQuote : ∀ c ∈ cs, c ≠ '"' ∧ c ≠ '\'')
      (isQuote : quote = '"' ∨ quote = '\'') (inside : quote ∉ body) (others : Alternate segments) :
      Alternate (⟨false, cs⟩ :: ⟨true, quote :: (body ++ [quote])⟩ :: segments)
  | unclosed {cs quote body} (noQuote : ∀ c ∈ cs, c ≠ '"' ∧ c ≠ '\'')
      (isQuote : quote = '"' ∨ quote = '\'') (inside : quote ∉ body) :
      Alternate [⟨false, cs⟩, ⟨true, quote :: body⟩, ⟨false, []⟩]

theorem alternate_split {outside : List Char} (noQuote : ∀ c ∈ outside, c ≠ '"' ∧ c ≠ '\'')
    (cs : List Char) : Alternate (Segment.split outside cs) := by
  have nothing : Segment.split [] [] = [⟨false, []⟩] := by
    rw [Segment.split]
    rfl
  induction outside, cs using Segment.split.induct with
  | case1 outside =>
    rw [Segment.split]
    exact .last fun c hc => noQuote c (List.mem_reverse.mp hc)
  | case2 outside c rest isQuote body ih =>
    have reversed : ∀ c ∈ outside.reverse, c ≠ '"' ∧ c ≠ '\'' :=
      fun c hc => noQuote c (List.mem_reverse.mp hc)
    obtain ⟨run, after, rfl, inside, stop⟩ := exists_run (· != c) rest
    have noQuoteInside : c ∉ run := fun h => by simpa using inside c h
    have body_eq : body = run := takeWhile_append_of_stop inside stop
    have others := ih (by simp)
    rw [body_eq] at others
    cases after with
    | nil =>
      have spelled : Spelled (fun _ => false) .string _ (c :: run) [] :=
        .unclosed isQuote noQuoteInside
      have split := Segment.split_string outside spelled
      rw [nothing, List.cons_append] at split
      rw [split]
      exact .unclosed reversed isQuote noQuoteInside
    | cons d after =>
      obtain rfl : d = c := by simpa using stop d rfl
      have spelled : Spelled (fun _ => false) .string _ (d :: (run ++ [d])) after :=
        .string isQuote noQuoteInside
      have split := Segment.split_string outside spelled
      rw [List.cons_append, List.append_assoc, List.singleton_append] at split
      rw [split]
      exact .string reversed isQuote noQuoteInside (by simpa using others)
  | case3 outside c rest noString ih =>
    rw [Segment.split, if_neg noString]
    rw [not_or] at noString
    exact ih (List.forall_mem_cons.mpr ⟨noString, noQuote⟩)

/-! ### Replacing outside quotes -/

theorem mem_replaceWhole {wanted replacement cs : List Char} {inWord : Bool} {c : Char}
    (h : c ∈ replaceWhole wanted replacement inWord cs) : c ∈ replacement ∨ c ∈ cs := by
  induction inWord, cs using replaceWhole.induct wanted with
  | case1 inWord =>
    rw [replaceWhole] at h
    exact .inr h
  | case2 inWord d rest here ih =>
    rw [replaceWhole, if_pos here] at h
    rcases List.mem_append.mp h with h | h
    · exact .inl h
    · exact (ih h).imp_right fun h => List.mem_cons_of_mem _ (List.mem_of_mem_drop h)
  | case3 inWord d rest notHere ih =>
    rw [replaceWhole, if_neg notHere] at h
    rcases List.mem_cons.mp h with rfl | h
    · exact .inr List.mem_cons_self
    · exact (ih h).imp_right (List.mem_cons_of_mem _)

/-- A text outside quotes with some references replaced, one after the other. -/
def replaceEach (references : List (String × Value)) (cs : List Char) : List Char :=
  references.foldl (fun cs r => replaceWhole r.1.toList r.2.toText.toList false cs) cs

theorem Segment.replace_outside (references : List (String × Value)) (cs : List Char) :
    Segment.replace references ⟨false, cs⟩ = ⟨false, replaceEach references cs⟩ := by
  induction references generalizing cs with
  | nil => rfl
  | cons r references ih => exact ih _

theorem replaceEach_nil (references : List (String × Value)) : replaceEach references [] = [] := by
  induction references with
  | nil => rfl
  | cons r references ih =>
    rw [replaceEach, List.foldl_cons, replaceWhole]
    exact ih

theorem mem_replaceEach {references : List (String × Value)} {cs : List Char} {c : Char}
    (h : c ∈ replaceEach references cs) : c ∈ cs ∨ ∃ r ∈ references, c ∈ r.2.toText.toList := by
  induction references generalizing cs with
  | nil => exact .inl h
  | cons r references ih =>
    rcases ih h with first | ⟨r', hr, found⟩
    · exact (mem_replaceWhole first).symm.imp_right fun h => ⟨r, List.mem_cons_self, h⟩
    · exact .inr ⟨r', List.mem_cons_of_mem _ hr, found⟩

/-- Replacing references outside quotes brings no quotes in if the values have none. -/
theorem Alternate.map_replace {segments : List Segment} (h : Alternate segments)
    {references : List (String × Value)}
    (values : ∀ r ∈ references, ∀ c ∈ r.2.toText.toList, c ≠ '"' ∧ c ≠ '\'') :
    Alternate (segments.map (Segment.replace references)) := by
  have outside {cs : List Char} (noQuote : ∀ c ∈ cs, c ≠ '"' ∧ c ≠ '\'') :
      ∀ c ∈ replaceEach references cs, c ≠ '"' ∧ c ≠ '\'' := fun c hc => by
    rcases mem_replaceEach hc with hc | ⟨r, hr, hc⟩
    · exact noQuote c hc
    · exact values r hr c hc
  induction h with
  | last noQuote => simpa [Segment.replace_outside] using .last (outside noQuote)
  | string noQuote isQuote inside _ ih =>
    simpa [Segment.replace_outside, Segment.replace_quoted] using
      .string (outside noQuote) isQuote inside ih
  | unclosed noQuote isQuote inside =>
    simpa [Segment.replace_outside, Segment.replace_quoted, replaceEach_nil] using
      .unclosed (outside noQuote) isQuote inside

/-! ### Reading segments -/

theorem boundary_quote {quote : Char} (front rest : List Char)
    (isQuote : quote = '"' ∨ quote = '\'') : Boundary front (quote :: rest) := by
  intro d hd
  obtain rfl : quote = d := by simpa using hd
  exact .inl isQuote

/-- Idle characters in front of an opening bracket are passed over. -/
theorem Token.scan_opening (isFunction : String → Bool) {gap : List Char}
    (idle : ∀ c ∈ gap, isIdle c = true) (position : Nat) (behind : List Char) :
    ∃ opening rest, opening.kind = .leftBracket ∧
      Token.scan isFunction position (gap ++ '[' :: behind) = opening :: rest := by
  induction gap generalizing position with
  | nil =>
    have form : Form isFunction .leftBracket _ ['['] behind := .mark (c := '[') rfl
    exact ⟨_, _, rfl, Token.scan_of_form form position⟩
  | cons c gap ih =>
    obtain ⟨here, others⟩ := List.forall_mem_cons.mp idle
    have noDigit : (gap ++ '[' :: behind).head?.any Text.isDigit = false := by
      cases gap with
      | nil =>
        change Text.isDigit '[' = false
        decide
      | cons d gap =>
        have := others d List.mem_cons_self
        simp only [isIdle, Bool.and_eq_true, Bool.not_eq_true'] at this
        simp [this]
    have isNone : Lexeme.at? isFunction c (gap ++ '[' :: behind) = none := by
      refine Lexeme.at?_eq_none_iff.mpr ⟨here, ?_⟩
      simp only [isIdle, Bool.and_eq_true, Bool.not_eq_true'] at here
      simp only [Lexeme.startsNumeral, here.1.2, noDigit, Bool.and_false, Bool.or_false]
    rw [List.cons_append, Token.scan_of_none isNone]
    exact ih others _

/-- A reference is read where no word runs into it. -/
theorem hasReference_scan {front name gap : List Char} (noQuote : ∀ c ∈ front, c ≠ '"' ∧ c ≠ '\'')
    (free : EndsNoWord front) (word : IsWord name)
    (noFunction : isFunction ((String.ofList name).map Char.toUpper) = false)
    (idle : ∀ c ∈ gap, isIdle c = true) (behind : List Char) (position : Nat) :
    hasReference (Token.scan isFunction position (front ++ (name ++ (gap ++ '[' :: behind)))) =
      true := by
  obtain ⟨c, more, rfl, start, parts⟩ := word
  have boundary : Boundary front (c :: more ++ (gap ++ '[' :: behind)) := by
    intro d hd
    obtain rfl : c = d := by simpa using hd
    exact .inr ⟨start, free⟩
  have stops : ∀ d ∈ (gap ++ '[' :: behind).head?, isWordPart d = false := by
    intro d hd
    cases gap with
    | nil =>
      obtain rfl : '[' = d := by simpa using hd
      rfl
    | cons e gap =>
      obtain rfl : e = d := by simpa using hd
      exact isWordPart_of_isIdle (idle e List.mem_cons_self)
  obtain ⟨tokens, read, _⟩ := Token.scan_append isFunction noQuote boundary position
  rw [read, Token.scan_of_form (.identifier start parts stops noFunction)]
  obtain ⟨opening, rest, kind, readOpening⟩ := Token.scan_opening isFunction idle
    (position + front.length + (c :: more).length) behind
  rw [readOpening]
  exact hasReference_append tokens (by simp [hasReference, kind])

namespace Alternate

variable {segments : List Segment}

/-- Brackets are read outside quotes only. -/
theorem kind_ne_leftBracket (h : Alternate segments)
    (noOpening : ∀ s ∈ segments, s.quoted = false → '[' ∉ s.chars) (position : Nat) :
    ∀ t ∈ Token.scan isFunction position (segments.flatMap (·.chars)), t.kind ≠ .leftBracket := by
  have outside {cs : List Char} (rest : List Char) (noQuote : ∀ c ∈ cs, c ≠ '"' ∧ c ≠ '\'')
      (plain : '[' ∉ cs) (boundary : Boundary cs rest) {position : Nat}
      (behind : ∀ t ∈ Token.scan isFunction (position + cs.length) rest, t.kind ≠ .leftBracket) :
      ∀ t ∈ Token.scan isFunction position (cs ++ rest), t.kind ≠ .leftBracket := by
    obtain ⟨tokens, read, brackets⟩ :=
      Token.scan_append isFunction noQuote boundary position
    intro t ht kind
    rw [read] at ht
    rcases List.mem_append.mp ht with ht | ht
    · exact plain (brackets t ht kind)
    · exact behind t ht kind
  have nothing (position : Nat) :
      ∀ t ∈ Token.scan isFunction position [], t.kind ≠ .leftBracket := by
    unfold Token.scan
    simp
  induction h generalizing position with
  | @last cs noQuote =>
    have boundary : Boundary cs [] := fun _ hd => by cases hd
    exact outside [] noQuote (noOpening _ List.mem_cons_self rfl) boundary (nothing _)
  | @string cs quote body segments noQuote isQuote inside _ ih =>
    refine outside (quote :: (body ++ [quote]) ++ segments.flatMap (·.chars)) noQuote
      (noOpening _ List.mem_cons_self rfl) (boundary_quote cs _ isQuote) ?_
    rw [Token.scan_of_form (.string isQuote inside)]
    refine List.forall_mem_cons.mpr ⟨by simp, ih (fun s hs => ?_) _⟩
    exact noOpening s (List.mem_cons_of_mem _ (List.mem_cons_of_mem _ hs))
  | @unclosed cs quote body noQuote isQuote inside =>
    refine outside (quote :: body ++ []) noQuote (noOpening _ List.mem_cons_self rfl)
      (boundary_quote cs _ isQuote) ?_
    rw [Token.scan_of_form (.unclosed isQuote inside)]
    exact List.forall_mem_cons.mpr ⟨by simp, nothing _⟩

theorem hasReference_of_mem {front name gap behind : List Char} (h : Alternate segments)
    (mem : ⟨false, front ++ (name ++ (gap ++ '[' :: behind))⟩ ∈ segments)
    (free : EndsNoWord front) (word : IsWord name)
    (noFunction : isFunction ((String.ofList name).map Char.toUpper) = false)
    (idle : ∀ c ∈ gap, isIdle c = true) (position : Nat) :
    hasReference (Token.scan isFunction position (segments.flatMap (·.chars))) = true := by
  have outside (position : Nat) {rest : List Char}
      (noQuote : ∀ c ∈ front ++ (name ++ (gap ++ '[' :: behind)), c ≠ '"' ∧ c ≠ '\'') :
      hasReference (Token.scan isFunction position
        (front ++ (name ++ (gap ++ '[' :: behind)) ++ rest)) = true := by
    have whole : front ++ (name ++ (gap ++ '[' :: behind)) ++ rest =
        front ++ (name ++ (gap ++ '[' :: (behind ++ rest))) := by simp
    rw [whole]
    exact hasReference_scan (fun c hc => noQuote c (List.mem_append_left _ hc)) free word noFunction
      idle _ _
  induction h generalizing position with
  | @last cs noQuote =>
    obtain rfl : _ = cs := congrArg Segment.chars (List.mem_singleton.mp mem)
    exact outside _ noQuote
  | @string cs quote body segments noQuote isQuote inside _ ih =>
    rcases List.mem_cons.mp mem with same | mem
    · obtain rfl : _ = cs := congrArg Segment.chars same
      exact outside _ noQuote
    rcases List.mem_cons.mp mem with same | mem
    · cases same
    simp only [List.flatMap_cons]
    obtain ⟨tokens, read, _⟩ := Token.scan_append isFunction noQuote
      (boundary_quote cs _ isQuote) position
    rw [List.cons_append, read, ← List.cons_append, Token.scan_of_form (.string isQuote inside)]
    exact hasReference_append tokens (hasReference_cons (ih mem _))
  | @unclosed cs quote body noQuote isQuote inside =>
    rcases List.mem_cons.mp mem with same | mem
    · obtain rfl : _ = cs := congrArg Segment.chars same
      exact outside _ noQuote
    · simp at mem

end Alternate

end Quarterly.Formula
