import Quarterly.Proofs.Formula.Coverage

/-!
# Tokens written out

Tokens are written with single spaces between them, the name of a function in capitals and a string
in quotes. What is written in this way is read as the same tokens again, if the tokens were read
from a text (`tokenize_render`): a space ends every token, and a string that was read in one kind of
quotes has none of this kind inside, so that it can be written in them again.
-/

namespace Quarterly.Formula

open Lexeme (isWordStart isWordPart Form)

namespace Token

/-- What a token says, wherever it stands. -/
def content (t : Token) : TokenKind × String := (t.kind, t.text)

/-- A token as it is written: its text, and a string in double quotes, or in single ones if it has a
double one inside. -/
def written (t : Token) : String :=
  if t.kind = .string then
    let quote := if '"' ∈ t.text.toList then "'" else "\""
    quote ++ t.text ++ quote
  else t.text

/-- Write tokens with single spaces between them; the end mark is left out. -/
def render (tokens : List Token) : String :=
  " ".intercalate ((tokens.filter (·.kind ≠ .endMark)).map written)

end Token

variable {isFunction : String → Bool}

/-! ### One token -/

namespace Lexeme

theorem toUpper_class (c : Char) : isWordStart c.toUpper = isWordStart c ∧
    isWordPart c.toUpper = isWordPart c ∧ c.toUpper.toUpper = c.toUpper := by
  refine of_ascii (p := fun c => isWordStart c.toUpper = isWordStart c ∧
    isWordPart c.toUpper = isWordPart c ∧ c.toUpper.toUpper = c.toUpper) (by decide) ?_ c
  intro c large
  have same : c.toUpper = c := by
    refine dif_neg fun between => ?_
    have last : c.val.toNat ≤ 'z'.val.toNat := UInt32.le_iff_toNat_le.mp between.2
    exact absurd (Nat.le_trans large last) (by decide)
  simp only [same, and_self]

/-- A word in capitals keeps its capitals. -/
theorem capitals_map_toUpper (cs : List Char) :
    (String.ofList (cs.map Char.toUpper)).map Char.toUpper =
      (String.ofList cs).map Char.toUpper := by
  rw [← String.toList_inj, String.toList_map, String.toList_map, String.toList_ofList,
    String.toList_ofList, List.map_map]
  exact List.map_congr_left fun c _ => (toUpper_class c).2.2

/-- What can be told from the kind and the text of a token: it can be written in a form of the same
token, with a space or nothing behind it. -/
theorem Form.written {kind : TokenKind} {text : String} {own rest : List Char}
    (h : Form isFunction kind text own rest) (position : Nat) {after : List Char}
    (space : ∀ c ∈ after.head?, c = ' ') :
    Form isFunction kind text (Token.mk kind text position).written.toList after := by
  have stops {p : Char → Prop} (ends : p ' ') : ∀ c ∈ after.head?, p c := fun c hc =>
    space c hc ▸ ends
  -- A string can be written in the quotes that it was read in, or it has no double one inside.
  have quoted {quote : Char} {body : List Char} (isQuote : quote = '"' ∨ quote = '\'')
      (noQuote : quote ∉ body) : Form isFunction .string (String.ofList body)
        (Token.mk .string (String.ofList body) position).written.toList after := by
    by_cases double : '"' ∈ body
    · obtain rfl : quote = '\'' := isQuote.resolve_left fun same => noQuote (same ▸ double)
      simpa [Token.written, double] using Form.string (.inr rfl) noQuote
    · simpa [Token.written, double] using Form.string (.inl rfl) double
  cases h with
  | mark h =>
    have noString : kind ≠ .string := by
      rintro rfl
      cases isMark_of_punctuation h
    simpa [Token.written, noString] using Form.mark h
  | double h => simpa [Token.written] using Form.double h
  | single h => simpa [Token.written] using Form.single h (stops (by simp [isDoubleOperator]))
  | string isQuote noQuote | unclosed isQuote noQuote => exact quoted isQuote noQuote
  | whole notEmpty digits =>
    simpa [Token.written] using Form.whole notEmpty digits (stops (by decide))
  | decimal notEmpty inside behind =>
    simpa [Token.written] using Form.decimal notEmpty inside behind (stops (by decide))
  | identifier start parts _ noFunction =>
    simpa [Token.written] using Form.identifier start parts (stops (by decide)) noFunction
  | @function c more _ start parts _ known =>
    have capitals := capitals_map_toUpper (c :: more)
    have startUpper : isWordStart c.toUpper = true := (toUpper_class c).1.trans start
    have partsUpper : ∀ d ∈ more.map Char.toUpper, isWordPart d = true :=
      List.forall_mem_map.mpr fun d hd => (toUpper_class d).2.1.trans (parts d hd)
    have form := Form.function startUpper partsUpper (stops (by decide))
      ((congrArg isFunction capitals).trans known)
    rw [← List.map_cons, capitals] at form
    simpa [Token.written] using form

end Lexeme

/-! ### All tokens -/

/-- Tokens that can be read are read where they are written with spaces between them, from any place
on. -/
theorem content_scan_written {tokens : List Token}
    (forms : ∀ t ∈ tokens, ∃ own rest, Form isFunction t.kind t.text own rest) (position : Nat) :
    (Token.scan isFunction position (" ".intercalate (tokens.map Token.written)).toList).map
        Token.content = tokens.map Token.content ++ [(.endMark, "")] := by
  rw [String.toList_intercalate, List.map_map]
  induction tokens generalizing position with
  | nil =>
    unfold Token.scan
    rfl
  | cons t tokens ih =>
    obtain ⟨⟨own, rest, form⟩, others⟩ := List.forall_mem_cons.mp forms
    have read (after : List Char) (space : ∀ c ∈ after.head?, c = ' ') :=
      Token.scan_of_form (form.written t.position space) position
    cases tokens with
    | nil =>
      have read := read [] (by simp)
      rw [List.append_nil] at read
      rw [List.map_singleton, List.intercalate_singleton, Function.comp_apply, read]
      unfold Token.scan
      rfl
    | cons u tokens =>
      have space : " ".toList = [' '] := rfl
      rw [List.map_cons, List.map_cons, List.intercalate_cons_cons, ← List.map_cons,
        List.append_assoc, space, List.singleton_append, Function.comp_apply, read _ (by simp),
        Token.scan_of_none (Lexeme.at?_of_isBlank (by decide)), List.map_cons, ← space, ih others]
      rfl

/-- Reading undoes writing for tokens that were read from a text. -/
theorem tokenize_render (isFunction : String → Bool) (formula : String) :
    (tokenize isFunction (Token.render (tokenize isFunction formula))).map Token.content =
      (tokenize isFunction formula).map Token.content := by
  obtain ⟨extents, covers⟩ := covers_scan isFunction [] formula.toList
  have tokens_eq : tokenize isFunction formula = _ := covers.tokens_eq
  have kept : (tokenize isFunction formula).filter (·.kind ≠ .endMark) =
      extents.map (·.token) := by
    rw [tokens_eq, List.filter_append, List.filter_eq_self.mpr]
    · simp
    · exact List.forall_mem_map.mpr fun e he => by simpa using covers.noEndMark e he
  have forms : ∀ t ∈ extents.map (·.token), ∃ own rest, Form isFunction t.kind t.text own rest :=
    List.forall_mem_map.mpr fun e he => ⟨_, _, covers.form e he⟩
  unfold Token.render
  rw [kept, tokens_eq, List.map_append]
  exact content_scan_written forms 0

end Quarterly.Formula
