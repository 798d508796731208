import Quarterly.Proofs.Formula.Spans

/-!
# Tokens cover their text

Each token takes up characters of the text, from its position to a place where it stops. Tokens
follow each other without overlap, a token shows the characters that it takes up, and a character
that no token takes up is one that no token could start with (`tokenize_covers`).
-/

namespace Quarterly.Formula

open Lexeme (isIdle isWordStart isWordPart Form)

/-- A token with the place where it stops: it takes up the characters from its position on, up to
the one at this place. -/
structure Extent where
  token : Token
  stop : Nat

namespace Extent

variable (formula : List Char) (e : Extent)

/-- The characters that a token takes up. -/
def chars : List Char := (formula.drop e.token.position).take (e.stop - e.token.position)

/-- Whether a place belongs to a token. -/
def Contains (i : Nat) : Prop := e.token.position ≤ i ∧ i < e.stop

/-- The characters of a token in capitals. -/
def capitals : String := (String.ofList (e.chars formula)).map Char.toUpper

/-- A token shows the characters that it takes up: the name of a function in capitals, a string
without its quotes, of which the closing one may be missing at the end, and all others as they
are. -/
def Shown : Prop :=
  match e.token.kind with
  | .function => e.token.text = e.capitals formula
  | .string => ∃ quote, (quote = '"' ∨ quote = '\'') ∧ quote ∉ e.token.text.toList ∧
      (e.chars formula = quote :: (e.token.text.toList ++ [quote]) ∨
        e.chars formula = quote :: e.token.text.toList ∧ e.stop = formula.length)
  | _ => e.token.text = String.ofList (e.chars formula)

/-- A token is a word if it starts like one, and then it is that of a function exactly if a function
has this name in capitals. -/
def WordOf (isFunction : String → Bool) : Prop :=
  (e.token.kind = .function ↔
    (∃ c ∈ (e.chars formula).head?, isWordStart c = true) ∧
      isFunction (e.capitals formula) = true) ∧
  (e.token.kind = .identifier ↔
    (∃ c ∈ (e.chars formula).head?, isWordStart c = true) ∧
      isFunction (e.capitals formula) = false)

end Extent

/-- No token starts with the character at a place: it is no mark, no operator, no quote, no digit,
no letter and no underscore, as every blank, and it is no point in front of a digit. -/
def IdleAt (formula : List Char) (i : Nat) : Prop :=
  ∀ c, formula[i]? = some c →
    isIdle c = true ∧ ¬ (c = '.' ∧ ∃ d, formula[i + 1]? = some d ∧ Text.isDigit d = true)

/-- How tokens cover a text from a place on. -/
structure Covers (isFunction : String → Bool) (formula : List Char) (start : Nat)
    (tokens : List Token) (extents : List Extent) : Prop where
  /-- The only end mark stands at the end, behind all characters. -/
  tokens_eq : tokens = extents.map (·.token) ++ [⟨.endMark, "", formula.length⟩]
  noEndMark : ∀ e ∈ extents, e.token.kind ≠ .endMark
  first : ∀ e ∈ extents, start ≤ e.token.position
  notEmpty : ∀ e ∈ extents, e.token.position < e.stop
  inside : ∀ e ∈ extents, e.stop ≤ formula.length
  apart : extents.Pairwise fun a b => a.stop ≤ b.token.position
  form : ∀ e ∈ extents,
    Form isFunction e.token.kind e.token.text (e.chars formula) (formula.drop e.stop)
  shown : ∀ e ∈ extents, e.Shown formula
  words : ∀ e ∈ extents, e.WordOf formula isFunction
  others : ∀ i, start ≤ i → (∀ e ∈ extents, ¬ e.Contains i) → IdleAt formula i

variable {isFunction : String → Bool} {formula : List Char}

/-! ### One token -/

namespace Extent

variable {e : Extent}

theorem shown_of_form (inside : e.stop ≤ formula.length)
    (h : Form isFunction e.token.kind e.token.text (e.chars formula) (formula.drop e.stop)) :
    e.Shown formula := by
  unfold Shown capitals
  generalize behind : formula.drop e.stop = rest at h
  generalize e.chars formula = own, e.token.kind = kind, e.token.text = text at h
  cases h with
  | mark h =>
    unfold Lexeme.punctuation? at h
    split at h <;> cases h <;> rfl
  | double | single | whole | decimal | identifier | function => rfl
  | string isQuote noQuote =>
    exact ⟨_, isQuote, by simpa using noQuote, .inl (by simp)⟩
  | unclosed isQuote noQuote =>
    have last := List.drop_eq_nil_iff.mp behind
    exact ⟨_, isQuote, by simpa using noQuote, .inr ⟨by simp, Nat.le_antisymm inside last⟩⟩

theorem wordOf_of_form
    (h : Form isFunction e.token.kind e.token.text (e.chars formula) (formula.drop e.stop)) :
    e.WordOf formula isFunction := by
  obtain ⟨c, more, own, start⟩ := h.spelled.isWordStart_head
  have isWord : (∃ c ∈ (e.chars formula).head?, isWordStart c = true) ↔
      e.token.kind = .function ∨ e.token.kind = .identifier := by
    simp [own, start]
  unfold WordOf
  rw [isWord]
  unfold capitals
  generalize formula.drop e.stop = rest at h
  generalize e.chars formula = own, e.token.kind = kind, e.token.text = text at h
  cases h with
  | mark h =>
    unfold Lexeme.punctuation? at h
    split at h <;> cases h <;> simp
  | double | single | string | unclosed | whole | decimal => simp
  | identifier _ _ _ noFunction => simp only [noFunction, reduceCtorEq]; simp
  | function _ _ _ known => simp only [known, reduceCtorEq]; simp

end Extent

/-! ### All tokens -/

/-- The part of a text that a token takes up, if the text goes on with its characters. -/
theorem Extent.of_append (before own rest : List Char) (kind : TokenKind) (text : String) :
    let e : Extent := ⟨⟨kind, text, before.length⟩, before.length + own.length⟩
    let formula := before ++ (own ++ rest)
    e.chars formula = own ∧ formula.drop e.stop = rest ∧ e.stop ≤ formula.length := by
  refine ⟨?_, ?_, ?_⟩
  · simp [chars]
  · simp [List.drop_append]
  · simp

/-- Nothing of a text is left out from a place on, if nothing is from the next place on and no
token starts here. -/
theorem Covers.cons_idle {start : Nat} {tokens : List Token} {extents : List Extent}
    (h : Covers isFunction formula (start + 1) tokens extents) (idle : IdleAt formula start) :
    Covers isFunction formula start tokens extents := by
  refine { h with first := fun e he => Nat.le_of_succ_le (h.first e he), others := ?_ }
  intro i hi outside
  rcases Nat.lt_or_eq_of_le hi with later | rfl
  · exact h.others i later outside
  · exact idle

theorem Covers.cons_token {tokens : List Token} {extents : List Extent} {e : Extent}
    (h : Covers isFunction formula e.stop tokens extents) (inside : e.stop ≤ formula.length)
    (notEmpty : e.token.position < e.stop)
    (form : Form isFunction e.token.kind e.token.text (e.chars formula) (formula.drop e.stop))
    (noEnd : e.token.kind ≠ .endMark) :
    Covers isFunction formula e.token.position (e.token :: tokens) (e :: extents) where
  tokens_eq := by rw [h.tokens_eq, List.map_cons, List.cons_append]
  noEndMark := List.forall_mem_cons.mpr ⟨noEnd, h.noEndMark⟩
  first := List.forall_mem_cons.mpr ⟨Nat.le_refl _, fun a ha => by have := h.first a ha; omega⟩
  notEmpty := List.forall_mem_cons.mpr ⟨notEmpty, h.notEmpty⟩
  inside := List.forall_mem_cons.mpr ⟨inside, h.inside⟩
  apart := List.pairwise_cons.mpr ⟨h.first, h.apart⟩
  form := List.forall_mem_cons.mpr ⟨form, h.form⟩
  shown := List.forall_mem_cons.mpr ⟨Extent.shown_of_form inside form, h.shown⟩
  words := List.forall_mem_cons.mpr ⟨Extent.wordOf_of_form form, h.words⟩
  others i hi outside := by
    obtain ⟨notHere, others⟩ := List.forall_mem_cons.mp outside
    refine h.others i (Nat.le_of_not_lt fun before => notHere ⟨hi, before⟩) others

/-- Each token starts behind the one before, and the end mark behind all of them. -/
theorem Covers.positions {start : Nat} {tokens : List Token} {extents : List Extent}
    (h : Covers isFunction formula start tokens extents) :
    (tokens.map (·.position)).Pairwise (· < ·) := by
  rw [h.tokens_eq, List.map_append, List.map_map, List.pairwise_append, List.pairwise_map]
  refine ⟨h.apart.imp_of_mem fun ha _ apart => ?_, by simp, fun p hp q hq => ?_⟩
  · exact Nat.lt_of_lt_of_le (h.notEmpty _ ha) apart
  · obtain ⟨e, he, rfl⟩ := List.mem_map.mp hp
    rw [List.mem_singleton.mp hq]
    exact Nat.lt_of_lt_of_le (h.notEmpty e he) (h.inside e he)

/-- A token could only start with a character that is passed over, if it were the point of a
numeral. -/
theorem idleAt_of_none {before rest : List Char} {c : Char}
    (none : Lexeme.at? isFunction c rest = none) : IdleAt (before ++ c :: rest) before.length := by
  intro d hd
  obtain rfl : c = d := by simpa using hd
  obtain ⟨idle, noNumeral⟩ := Lexeme.at?_eq_none_iff.mp none
  refine ⟨idle, ?_⟩
  rintro ⟨rfl, d, next, digit⟩
  rw [List.getElem?_append_right (Nat.le_add_right _ 1), Nat.add_sub_cancel_left,
    List.getElem?_cons_succ, ← List.head?_eq_getElem?] at next
  obtain ⟨more, rfl⟩ := List.head?_eq_some_iff.mp next
  simp [Lexeme.startsNumeral, digit] at noNumeral

/-- The tokens from a place on cover the text from there on. -/
theorem covers_scan (isFunction : String → Bool) (before cs : List Char) :
    ∃ extents, Covers isFunction (before ++ cs) before.length
      (Token.scan isFunction before.length cs) extents := by
  generalize place : before.length = position
  induction position, cs using Token.scan.induct isFunction generalizing before with
  | case1 position =>
    unfold Token.scan
    refine ⟨[], by simp [place], by simp, by simp, by simp, by simp, by simp, by simp, by simp,
      by simp, fun i hi _ c hc => ?_⟩
    rw [List.append_nil, List.getElem?_eq_none (by omega)] at hc
    cases hc
  | case2 position c rest none ih =>
    rw [Token.scan_of_none none]
    obtain ⟨extents, covers⟩ := ih (before ++ [c]) (by simp [place])
    rw [List.append_assoc, List.singleton_append] at covers
    exact ⟨extents, covers.cons_idle (place ▸ idleAt_of_none none)⟩
  | case3 position c rest lexeme found ih =>
    rw [Token.scan_of_some found]
    obtain ⟨more, after, rfl, extra, form⟩ := Lexeme.form_of_at? found
    rw [← extra, List.drop_left] at ih ⊢
    subst place
    have stop : before.length + 1 + more.length = before.length + (c :: more).length := by
      rw [List.length_cons, Nat.add_right_comm, Nat.add_assoc]
    rw [stop] at ih ⊢
    obtain ⟨extents, covers⟩ := ih (before ++ c :: more) (by simp)
    obtain ⟨chars, behind, inside⟩ :=
      Extent.of_append before (c :: more) after lexeme.kind lexeme.text
    rw [List.append_assoc] at covers
    refine ⟨_, Covers.cons_token covers inside (by simp) ?_ form.ne_endMark⟩
    rw [chars, behind]
    exact form

/-- Tokens cover the text that they are read from, and each token starts behind the one before. -/
theorem tokenize_covers (isFunction : String → Bool) (formula : String) :
    ((tokenize isFunction formula).map (·.position)).Pairwise (· < ·) ∧
      ∃ extents, Covers isFunction formula.toList 0 (tokenize isFunction formula) extents := by
  obtain ⟨extents, covers⟩ := covers_scan isFunction [] formula.toList
  refine ⟨covers.positions, extents, covers⟩

end Quarterly.Formula
