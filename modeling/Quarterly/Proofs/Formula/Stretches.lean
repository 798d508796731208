import Quarterly.Proofs.Formula.Grouped
import Quarterly.Proofs.Formula.Spans

/-!
# Stretches of a formula

A formula that is read as an expression is a row of stretches: references with their brackets, other
tokens, and idle characters in between. `Stretches` puts the characters behind the tokens and the
grouping of the tokens together, so whatever looks at the characters of a formula can be compared
with its tokens stretch by stretch.
-/

namespace Quarterly.Formula

open Lexeme (isIdle isWordStart isWordPart Spelled)

/-- A word: a letter or an underscore, and what can follow it. -/
def IsWord (cs : List Char) : Prop :=
  ∃ c more, cs = c :: more ∧ isWordStart c = true ∧ ∀ d ∈ more, isWordPart d = true

/-- What a token inside brackets is written with. -/
def Token.IsIndex (token : Token) (cs : List Char) : Prop :=
  token.text = String.ofList cs ∧ (token.kind = .identifier ∧ IsWord cs ∨
    token.kind = .number ∧ cs ≠ [] ∧ ∀ c ∈ cs, Text.isDigit c = true ∨ c = '.')

/-- A reference written out. -/
structure Group.Written (isFunction : String → Bool) (g : Group)
    (name gap left inside right : List Char) : Prop where
  /-- What stands in the brackets is the first token behind the opening one. -/
  first : ∃ rest extra, Lexeme.first? isFunction (left ++ (inside ++ (right ++ ']' :: rest))) =
    some ⟨g.inside.kind, g.inside.text, extra⟩
  nameText : g.name.text = String.ofList name
  word : IsWord name
  gap : ∀ c ∈ gap, isIdle c = true
  left : ∀ c ∈ left, isIdle c = true
  inside : g.inside.IsIndex inside
  right : ∀ c ∈ right, isIdle c = true

/-- The characters of a reference. -/
def Group.chars (name gap left inside right : List Char) : List Char :=
  name ++ (gap ++ '[' :: (left ++ (inside ++ (right ++ [']']))))

/-- How a text is taken apart into stretches. The first character stands at the given position. -/
inductive Stretches (isFunction : String → Bool) (apart : Prop) :
    Nat → List Char → List Token → Prop where
  | finish {position cs} (idle : ∀ c ∈ cs, isIdle c = true) :
      Stretches isFunction apart position cs [⟨.endMark, "", position + cs.length⟩]
  | token {position idles own rest kind text tokens} (idle : ∀ c ∈ idles, isIdle c = true)
      (spelled : Spelled isFunction kind text own rest) (noOpening : kind ≠ .leftBracket)
      (noClosing : kind ≠ .rightBracket)
      (next : apart → kind = .number → firstKind tokens ≠ some .identifier)
      (others : Stretches isFunction apart (position + idles.length + own.length) rest tokens) :
      Stretches isFunction apart position (idles ++ (own ++ rest))
        (⟨kind, text, position + idles.length⟩ :: tokens)
  | group {position idles name gap left inside right rest tokens} {g : Group} {opening : Token}
      (idle : ∀ c ∈ idles, isIdle c = true)
      (written : g.Written isFunction name gap left inside right)
      (kind : g.name.kind = .identifier) (opens : opening.kind = .leftBracket)
      (closes : g.closing.kind = .rightBracket)
      (start : g.name.position = position + idles.length)
      (stop : g.closing.position + 1 =
        position + idles.length + (Group.chars name gap left inside right).length)
      (next : apart → firstKind tokens ≠ some .identifier)
      (others : Stretches isFunction apart
        (position + idles.length + (Group.chars name gap left inside right).length) rest tokens) :
      Stretches isFunction apart position
        (idles ++ (Group.chars name gap left inside right ++ rest))
        (g.name :: opening :: g.inside :: g.closing :: tokens)

variable {isFunction : String → Bool} {apart : Prop} {position : Nat} {cs : List Char}

/-- A text has one first place of a character. -/
theorem eq_of_first {c : Char} {xs ys xs' ys' : List Char} (noX : c ∉ xs) (noY : c ∉ ys)
    (h : xs ++ c :: xs' = ys ++ c :: ys') : xs = ys ∧ xs' = ys' := by
  have same : xs = ys := by rw [← takeWhile_ne_append noX xs', h, takeWhile_ne_append noY ys']
  subst same
  exact ⟨rfl, by simpa using h⟩

theorem IsWord.isWordPart {word : List Char} (h : IsWord word) :
    ∀ c ∈ word, isWordPart c = true := by
  obtain ⟨c, more, rfl, start, parts⟩ := h
  intro d hd
  rcases List.mem_cons.mp hd with rfl | hd
  · exact Lexeme.isWordPart_of_isWordStart start
  · exact parts d hd

theorem isWordPart_of_isIdle {c : Char} (h : isIdle c = true) : isWordPart c = false := by
  simp only [isIdle, Bool.and_eq_true, Bool.not_eq_true'] at h
  exact h.2

/-! ### Brackets and quotes -/

/-- The characters that stand around something. -/
def delimiters : List Char := ['[', ']', '"', '\'']

theorem bracket_of_notMem {c : Char} (h : c ∉ delimiters) : c ≠ '[' ∧ c ≠ ']' := by
  simp only [delimiters, List.mem_cons, not_or] at h
  exact ⟨h.1, h.2.1⟩

theorem quote_of_notMem {c : Char} (h : c ∉ delimiters) : c ≠ '"' ∧ c ≠ '\'' := by
  simp only [delimiters, List.mem_cons, not_or] at h
  exact ⟨h.2.2.1, h.2.2.2.1⟩

theorem notMem_of_isIdle {c : Char} (h : isIdle c = true) : c ∉ delimiters :=
  notMem_of_all (by decide) h

theorem notMem_of_isWordPart {c : Char} (h : isWordPart c = true) : c ∉ delimiters :=
  notMem_of_all (by decide) h

/-- A numeral is written without delimiters. -/
theorem notMem_of_isDigit_or {c : Char} (h : Text.isDigit c = true ∨ c = '.') :
    c ∉ delimiters := by
  rcases h with h | rfl
  · exact notMem_of_all (by decide) h
  · decide

theorem Token.IsIndex.notMem {token : Token} {index : List Char} (h : token.IsIndex index) :
    ∀ c ∈ index, c ∉ delimiters := by
  intro c hc
  obtain ⟨_, ⟨_, word⟩ | ⟨_, _, digits⟩⟩ := h
  · exact notMem_of_isWordPart (word.isWordPart c hc)
  · exact notMem_of_isDigit_or (digits c hc)

/-! ### Where stretches start -/

/-- Where the next stretch starts. -/
theorem drop_stretch {formula idles own rest : List Char}
    (here : formula.drop position = idles ++ (own ++ rest)) :
    formula.drop (position + idles.length + own.length) = rest := by
  rw [← List.drop_drop, ← List.drop_drop, here, List.drop_left, List.drop_left]

/-- No bracket stands in front of a stretch. -/
theorem Stretches.firstKind_ne {tokens : List Token}
    (h : Stretches isFunction apart position cs tokens) : firstKind tokens ≠ some .leftBracket := by
  cases h with
  | finish _ => simp [firstKind]
  | token _ _ noOpening _ _ _ => simpa [firstKind] using noOpening
  | group _ _ kind _ _ _ _ _ _ => simp [firstKind, kind]

/-! ### How tokens are spelled -/

/-- A text is a word that is written to its end, and no function is named so. -/
structure Lexeme.Names (isFunction : String → Bool) (text : String) (own rest : List Char) :
    Prop where
  text_eq : text = String.ofList own
  word : IsWord own
  stops : ∀ c ∈ rest.head?, isWordPart c = false
  noFunction : isFunction (text.map Char.toUpper) = false

namespace Lexeme.Spelled

variable {text : String} {own rest : List Char}

theorem names (h : Spelled isFunction .identifier text own rest) :
    Names isFunction text own rest := by
  cases h with
  | mark h => cases isMark_of_punctuation h
  | identifier start parts stops noFunction =>
    exact ⟨rfl, ⟨_, _, rfl, start, parts⟩, stops, noFunction⟩

theorem isNumeral (h : Spelled isFunction .number text own rest) :
    text = String.ofList own ∧ own ≠ [] ∧ ∀ c ∈ own, Text.isDigit c = true ∨ c = '.' := by
  cases h with
  | mark h => cases isMark_of_punctuation h
  | number notEmpty h => exact ⟨rfl, notEmpty, h⟩

theorem isIndex {token : Token} (h : Spelled isFunction token.kind token.text own rest)
    (kind : token.kind = .identifier ∨ token.kind = .number) : token.IsIndex own := by
  rcases kind with kind | kind <;> rw [kind] at h
  · exact ⟨h.names.text_eq, .inl ⟨kind, h.names.word⟩⟩
  · exact ⟨h.isNumeral.1, .inr ⟨kind, h.isNumeral.2⟩⟩

theorem isOpening (h : Spelled isFunction .leftBracket text own rest) : own = ['['] := by
  cases h with
  | mark h =>
    unfold punctuation? at h
    split at h <;> cases h
    rfl

theorem isClosing (h : Spelled isFunction .rightBracket text own rest) : own = [']'] := by
  cases h with
  | mark h =>
    unfold punctuation? at h
    split at h <;> cases h
    rfl

end Lexeme.Spelled

/-! ### Taking a formula apart -/

theorem Token.Spans.uncons {token : Token} {tokens : List Token}
    (h : Token.Spans isFunction position cs (token :: tokens)) (notEnd : token.kind ≠ .endMark) :
    ∃ idles own rest, cs = idles ++ (own ++ rest) ∧ (∀ c ∈ idles, isIdle c = true) ∧
      Spelled isFunction token.kind token.text own rest ∧
      token.position = position + idles.length ∧
      Token.Spans isFunction (position + idles.length + own.length) rest tokens := by
  cases h with
  | finish _ => exact absurd rfl notEnd
  | token idle spelled _ others => exact ⟨_, _, _, rfl, idle, spelled, rfl, others⟩

theorem Token.Spans.first_of_cons {token : Token} {tokens : List Token}
    (h : Token.Spans isFunction position cs (token :: tokens)) (notEnd : token.kind ≠ .endMark) :
    ∃ extra, Lexeme.first? isFunction cs = some ⟨token.kind, token.text, extra⟩ := by
  cases h with
  | finish _ => exact absurd rfl notEnd
  | token _ _ first _ => exact first

theorem Token.Spans.uncons_group {g : Group} {opening : Token} {tokens : List Token}
    (h : Token.Spans isFunction position cs (g.name :: opening :: g.inside :: g.closing :: tokens))
    (kind : g.name.kind = .identifier) (opens : opening.kind = .leftBracket)
    (inside : g.inside.kind = .identifier ∨ g.inside.kind = .number)
    (closes : g.closing.kind = .rightBracket) :
    ∃ idles name gap left index right rest,
      cs = idles ++ (Group.chars name gap left index right ++ rest) ∧
      (∀ c ∈ idles, isIdle c = true) ∧ g.Written isFunction name gap left index right ∧
      g.name.position = position + idles.length ∧
      g.closing.position + 1 =
        position + idles.length + (Group.chars name gap left index right).length ∧
      Token.Spans isFunction
        (position + idles.length + (Group.chars name gap left index right).length) rest tokens := by
  have insideNotEnd : g.inside.kind ≠ .endMark := by
    rcases inside with h | h <;> simp [h]
  obtain ⟨idles, name, _, rfl, idle, word, start, h⟩ := h.uncons (by simp [kind])
  obtain ⟨gap, bracket, _, rfl, gapIdle, opened, openingAt, h⟩ := h.uncons (by simp [opens])
  obtain ⟨extra, first⟩ := h.first_of_cons insideNotEnd
  obtain ⟨left, index, _, rfl, leftIdle, spelled, insideAt, h⟩ := h.uncons insideNotEnd
  obtain ⟨right, bracket', rest, rfl, rightIdle, closed, closingAt, h⟩ :=
    h.uncons (by simp [closes])
  rw [kind] at word
  rw [opens] at opened
  rw [closes] at closed
  obtain rfl := opened.isOpening
  obtain rfl := closed.isClosing
  have stop : position + idles.length + name.length + gap.length + ['['].length + left.length +
      index.length + right.length + [']'].length =
        position + idles.length + (Group.chars name gap left index right).length := by
    simp [Group.chars]
    omega
  refine ⟨idles, name, gap, left, index, right, rest, by simp [Group.chars], idle, ?_, start, ?_,
    stop ▸ h⟩
  · exact ⟨⟨rest, extra, first⟩, word.names.text_eq, word.names.word, gapIdle, leftIdle,
      spelled.isIndex inside, rightIdle⟩
  · rw [← stop, closingAt]
    rfl

theorem Token.Spans.stretches {tokens : List Token} (h : Token.Spans isFunction position cs tokens)
    (grouped : Grouped apart tokens) : Stretches isFunction apart position cs tokens := by
  induction grouped generalizing position cs with
  | finish atEnd =>
    cases h with
    | finish idle => exact .finish idle
    | token _ _ _ others => cases others
  | other noOpening noClosing next others ih =>
    cases h with
    | finish _ => cases others
    | token idle spelled _ spans =>
      exact .token idle spelled noOpening noClosing next (ih spans)
  | group kind opens inside closes next others ih =>
    obtain ⟨idles, name, gap, left, index, right, rest, rfl, idle, written, start, stop, h⟩ :=
      h.uncons_group kind opens inside closes
    exact .group idle written kind opens closes start stop next (ih h)

/-! ### References as they are written -/

theorem Group.slice_eq {g : Group} {formula idles chars rest : List Char}
    (h : formula.drop position = idles ++ (chars ++ rest))
    (start : g.name.position = position + idles.length)
    (stop : g.closing.position + 1 = position + idles.length + chars.length) :
    g.slice formula = String.ofList chars := by
  have width : position + idles.length + chars.length - (position + idles.length) =
      chars.length := by omega
  rw [slice, sliceText, start, stop, width, ← List.drop_drop, h, List.drop_left, List.take_left]

/-- The tokens from some place on span the rest of the text. -/
theorem Token.Spans.drop {tokens : List Token} (h : Token.Spans isFunction position cs tokens)
    {p : Nat} (inside : p < tokens.length) :
    ∃ n, Token.Spans isFunction (position + n) (cs.drop n) (tokens.drop p) := by
  induction h generalizing p with
  | finish idle =>
    obtain rfl : p = 0 := by simpa using inside
    exact ⟨0, .finish idle⟩
  | @token position idles own rest kind text tokens idle spelled first others ih =>
    cases p with
    | zero => exact ⟨0, .token idle spelled first others⟩
    | succ p =>
      obtain ⟨n, spans⟩ := ih (by simpa using inside)
      refine ⟨idles.length + own.length + n, ?_⟩
      have rest_drop : (idles ++ (own ++ rest)).drop (idles.length + own.length + n) =
          rest.drop n := by
        rw [← List.append_assoc, ← List.drop_drop, ← List.length_append, List.drop_left]
      rw [rest_drop, List.drop_succ_cons]
      simpa [Nat.add_assoc] using spans

/-- No token of the tokens is the name of a form. -/
def Lacks (tokens : Array Token) (form : String) : Prop :=
  ∀ token ∈ tokens, token.kind = .function → token.text ≠ form

instance (tokens : Array Token) (form : String) : Decidable (Lacks tokens form) :=
  inferInstanceAs (Decidable (∀ token ∈ tokens, _))

theorem Lacks.functionAt_ne {tokens : Array Token} {form : String} (h : Lacks tokens form)
    (p : Nat) : functionAt tokens p ≠ some form := by
  intro here
  obtain ⟨token, found, named⟩ := Option.bind_eq_some_iff.mp here
  split at named
  · exact h token (Array.mem_of_getElem? found) ‹_› (Option.some.inj named)
  · cases named

/-- A context that holds a formula with its tokens. -/
def Context.IsTokenized (c : Context) : Prop :=
  c.tokens = (tokenize isFunctionName (String.ofList c.formula)).toArray

namespace Context.IsTokenized

variable {c : Context} (tokenized : c.IsTokenized)

include tokenized

theorem spans : Token.Spans isFunctionName 0 c.formula c.tokens.toList := by
  rw [tokenized, tokenize, String.toList_ofList]
  exact Token.spans_scan _ _ _

theorem spans_drop {p : Nat} {token : Token} (h : c.tokens[p]? = some token) :
    ∃ n, Token.Spans isFunctionName n (c.formula.drop n)
      (token :: c.tokens.toList.drop (p + 1)) := by
  have inside : p < c.tokens.toList.length := (Array.getElem?_eq_some_iff.mp h).1
  obtain ⟨n, spans⟩ := tokenized.spans.drop inside
  have here : c.tokens.toList.drop p = token :: c.tokens.toList.drop (p + 1) := drop_of_token h
  rw [here, Nat.zero_add] at spans
  exact ⟨n, spans⟩

/-- No bracket stands in a name. -/
theorem opening_notMem_name (p : Nat) (word : String) (here : nameAt c.tokens p = some word) :
    '[' ∉ word.toList := by
  obtain ⟨token, found, named⟩ := Option.bind_eq_some_iff.mp here
  split at named
  · rename_i kind
    cases named
    obtain ⟨n, spans⟩ := tokenized.spans_drop found
    obtain ⟨_, own, _, _, _, spelled, _⟩ := spans.uncons (by simp [kind])
    rw [kind] at spelled
    rw [spelled.names.text_eq, String.toList_ofList]
    intro bracket
    have := spelled.names.word.isWordPart '[' bracket
    cases this
  · cases named

theorem opening_mem_slice (p : Nat) (g : Group) (here : GroupAt c.tokens p g) :
    '[' ∈ (g.slice c.formula).toList := by
  have inRow : GroupAt c.tokens.toList.toArray p g := here
  obtain ⟨opening, opens, atOpening⟩ := exists_of_kindAt inRow.opening
  obtain ⟨n, spans⟩ := tokenized.spans_drop here.name
  obtain ⟨k, hk⟩ := here.indexed
  rw [atOpening, drop_of_token inRow.inside, drop_of_token inRow.closing] at spans
  obtain ⟨_, name, gap, left, index, right, _, split, _, _, start, stop, _⟩ :=
    spans.uncons_group here.kind opens (kind_of_quarterIndex hk) here.closes
  rw [Group.slice_eq split start stop, String.toList_ofList, Group.chars]
  simp

/-- With tracing and without `LAMBDA`, references and names can be told apart. -/
theorem telling (tracing : c.tracing = true) (noLambda : Lacks c.tokens lambdaName) :
    c.Telling where
  tracing := tracing
  names := tokenized.opening_notMem_name
  slices := tokenized.opening_mem_slice
  noLambda := noLambda.functionAt_ne

end Context.IsTokenized

end Quarterly.Formula
