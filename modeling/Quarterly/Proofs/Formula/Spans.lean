import Quarterly.Proofs.Formula.Lexemes

/-!
# Tokens and the characters they span

Reading a text as tokens takes it apart: idle characters that stand for nothing, the characters of a
token, and so on up to the end. `Token.Spans` tells how a text is taken apart, and
`Lexeme.Spelled` how a token is spelled. Whatever concerns the characters behind the tokens is by
induction on `Token.Spans`.
-/

namespace Quarterly.Formula

namespace Lexeme

/-- The characters of a token with what follows them in a text. -/
inductive Spelled (isFunction : String → Bool) :
    TokenKind → String → List Char → List Char → Prop where
  | mark {c kind rest} (h : punctuation? c = some kind) :
      Spelled isFunction kind c.toString [c] rest
  | operator {cs rest} (notEmpty : cs ≠ []) (h : ∀ c ∈ cs, isOperator c = true) :
      Spelled isFunction .operator (String.ofList cs) cs rest
  | string {quote body rest} (isQuote : quote = '"' ∨ quote = '\'') (h : quote ∉ body) :
      Spelled isFunction .string (String.ofList body) (quote :: (body ++ [quote])) rest
  /-- A quote without its partner; nothing follows. -/
  | unclosed {quote body} (isQuote : quote = '"' ∨ quote = '\'') (h : quote ∉ body) :
      Spelled isFunction .string (String.ofList body) (quote :: body) []
  | number {cs rest} (notEmpty : cs ≠ []) (h : ∀ c ∈ cs, Text.isDigit c = true ∨ c = '.') :
      Spelled isFunction .number (String.ofList cs) cs rest
  | identifier {c more rest} (start : isWordStart c = true)
      (parts : ∀ d ∈ more, isWordPart d = true) (stops : ∀ d ∈ rest.head?, isWordPart d = false)
      (noFunction : isFunction ((String.ofList (c :: more)).map Char.toUpper) = false) :
      Spelled isFunction .identifier (String.ofList (c :: more)) (c :: more) rest
  | function {c more rest} (start : isWordStart c = true)
      (parts : ∀ d ∈ more, isWordPart d = true) (stops : ∀ d ∈ rest.head?, isWordPart d = false) :
      Spelled isFunction .function ((String.ofList (c :: more)).map Char.toUpper) (c :: more) rest

/-- The first token in a text; characters that start none are passed over. -/
def first? (isFunction : String → Bool) : List Char → Option Lexeme
  | [] => none
  | c :: rest => (at? isFunction c rest).or (first? isFunction rest)

/-- The forms of tokens say all that matters of their characters, and more. -/
theorem Form.spelled {isFunction : String → Bool} {kind : TokenKind} {text : String}
    {own rest : List Char} (h : Form isFunction kind text own rest) :
    Spelled isFunction kind text own rest := by
  cases h with
  | mark h => exact .mark h
  | double h =>
    refine .operator (by simp) ?_
    simp only [isDoubleOperator, Bool.or_eq_true, Bool.and_eq_true, beq_iff_eq] at h
    rcases h with (⟨rfl, rfl⟩ | ⟨rfl, rfl | rfl⟩) | ⟨rfl, rfl⟩ <;> exact List.all_eq_true.mp rfl
  | single h alone => exact .operator (List.cons_ne_nil _ []) (by simpa using h)
  | string isQuote noQuote => exact .string isQuote noQuote
  | unclosed isQuote noQuote => exact .unclosed isQuote noQuote
  | whole notEmpty digits _ => exact .number notEmpty fun c hc => .inl (digits c hc)
  | decimal _ inside behind _ =>
    refine .number (by simp) fun c hc => ?_
    rcases List.mem_append.mp hc with hc | hc
    · exact .inl (inside c hc)
    · rcases List.mem_cons.mp hc with rfl | hc
      · exact .inr rfl
      · exact .inl (behind c hc)
  | identifier start parts stops noFunction => exact .identifier start parts stops noFunction
  | function start parts stops _ => exact .function start parts stops

/-- Words start like words, and nothing else does. -/
theorem Spelled.isWordStart_head {isFunction : String → Bool} {kind : TokenKind} {text : String}
    {own rest : List Char} (h : Spelled isFunction kind text own rest) :
    ∃ c more, own = c :: more ∧
      isWordStart c = decide (kind = .function ∨ kind = .identifier) := by
  cases h with
  | mark h =>
    refine ⟨_, _, rfl, ?_⟩
    unfold punctuation? at h
    split at h <;> cases h <;> rfl
  | operator notEmpty inside =>
    obtain ⟨c, more, rfl⟩ := List.exists_cons_of_ne_nil notEmpty
    refine ⟨c, more, rfl, Bool.eq_false_iff.mpr fun start => ?_⟩
    exact notMem_of_all (by decide) start (List.contains_iff_mem.mp (inside c List.mem_cons_self))
  | string isQuote | unclosed isQuote =>
    rcases isQuote with rfl | rfl <;> exact ⟨_, _, rfl, rfl⟩
  | number notEmpty inside =>
    obtain ⟨c, more, rfl⟩ := List.exists_cons_of_ne_nil notEmpty
    refine ⟨c, more, rfl, Bool.eq_false_iff.mpr fun start => ?_⟩
    rcases inside c List.mem_cons_self with digit | rfl
    · rw [isDigit_of_isWordStart start] at digit
      cases digit
    · cases start
  | identifier start | function start => exact ⟨_, _, rfl, start⟩

theorem Spelled.ne_nil {isFunction : String → Bool} {kind : TokenKind} {text : String}
    {own rest : List Char} (h : Spelled isFunction kind text own rest) : own ≠ [] := by
  obtain ⟨_, _, rfl, _⟩ := h.isWordStart_head
  exact List.cons_ne_nil _ _

end Lexeme

namespace Token

/-- How a text is taken apart into tokens. The first character stands at the given position. -/
inductive Spans (isFunction : String → Bool) : Nat → List Char → List Token → Prop where
  | finish {position cs} (idle : ∀ c ∈ cs, Lexeme.isIdle c = true) :
      Spans isFunction position cs [⟨.endMark, "", position + cs.length⟩]
  | token {position idles own rest kind text tokens}
      (idle : ∀ c ∈ idles, Lexeme.isIdle c = true)
      (spelled : Lexeme.Spelled isFunction kind text own rest)
      (first : ∃ extra,
        Lexeme.first? isFunction (idles ++ (own ++ rest)) = some ⟨kind, text, extra⟩)
      (others : Spans isFunction (position + idles.length + own.length) rest tokens) :
      Spans isFunction position (idles ++ (own ++ rest))
        (⟨kind, text, position + idles.length⟩ :: tokens)

namespace Spans

variable {isFunction : String → Bool} {position : Nat} {cs : List Char} {tokens : List Token}

/-- One more character in front that starts no token. -/
theorem cons {c : Char} (none : Lexeme.at? isFunction c cs = none)
    (h : Spans isFunction (position + 1) cs tokens) :
    Spans isFunction position (c :: cs) tokens := by
  have idle := (Lexeme.at?_eq_none_iff.mp none).1
  cases h with
  | finish idles =>
    rw [show position + 1 + cs.length = position + (c :: cs).length by simp; omega]
    exact .finish (by simpa using ⟨idle, idles⟩)
  | @token _ idles own rest kind text tokens idleAll spelled first others =>
    have length : position + 1 + idles.length = position + (c :: idles).length := by simp; omega
    rw [length] at others ⊢
    have allIdle : ∀ d ∈ c :: idles, Lexeme.isIdle d = true := by simpa using ⟨idle, idleAll⟩
    refine .token allIdle spelled ?_ others
    rw [List.cons_append, Lexeme.first?, none, Option.none_or]
    exact first

end Spans

theorem scan_of_none {isFunction : String → Bool} {c : Char} {rest : List Char}
    (h : Lexeme.at? isFunction c rest = none) (position : Nat) :
    Token.scan isFunction position (c :: rest) = Token.scan isFunction (position + 1) rest := by
  rw [Token.scan.eq_def]
  simp only [h]

theorem scan_of_some {isFunction : String → Bool} {c : Char} {rest : List Char} {lexeme : Lexeme}
    (h : Lexeme.at? isFunction c rest = some lexeme) (position : Nat) :
    Token.scan isFunction position (c :: rest) =
      ⟨lexeme.kind, lexeme.text, position⟩ ::
        Token.scan isFunction (position + 1 + lexeme.extra) (rest.drop lexeme.extra) := by
  rw [Token.scan.eq_def]
  simp only [h]

/-- A token that stands in front of a text is read first. -/
theorem scan_of_form {isFunction : String → Bool} {kind : TokenKind} {text : String}
    {own rest : List Char} (h : Lexeme.Form isFunction kind text own rest) (position : Nat) :
    Token.scan isFunction position (own ++ rest) =
      ⟨kind, text, position⟩ :: Token.scan isFunction (position + own.length) rest := by
  obtain ⟨c, more, rfl, _⟩ := h.spelled.isWordStart_head
  rw [List.cons_append, scan_of_some (Lexeme.at?_of_form h), List.drop_left,
    List.length_cons, Nat.add_assoc, Nat.add_comm 1]

/-- Tokens span the text that they are read from. -/
theorem spans_scan (isFunction : String → Bool) (position : Nat) (cs : List Char) :
    Spans isFunction position cs (Token.scan isFunction position cs) := by
  induction position, cs using Token.scan.induct isFunction with
  | case1 position =>
    unfold Token.scan
    exact @Spans.finish isFunction position [] (by simp)
  | case2 position c rest none ih =>
    rw [scan_of_none none]
    exact ih.cons none
  | case3 position c rest lexeme found ih =>
    rw [scan_of_some found]
    obtain ⟨more, after, rfl, extra, form⟩ := Lexeme.form_of_at? found
    have spelled := form.spelled
    rw [← extra, List.drop_left] at ih ⊢
    have first : Lexeme.first? isFunction (c :: (more ++ after)) = some lexeme := by
      rw [Lexeme.first?, found, Option.some_or]
    have stop : position + 1 + more.length = position + 0 + (c :: more).length := by
      simp only [List.length_cons]
      omega
    have noIdles : ∀ d ∈ ([] : List Char), Lexeme.isIdle d = true := by simp
    exact .token noIdles spelled ⟨_, first⟩ (stop ▸ ih)

end Token

end Quarterly.Formula
