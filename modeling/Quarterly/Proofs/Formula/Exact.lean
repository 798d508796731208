import Quarterly.Proofs.Formula.Replacing
import Quarterly.Proofs.Number.Written

/-!
# Substitution is exact

The formula of a trace, in which values stand in place of references, comes about by searching the
text for every reference, outside quotes and wherever no word runs into it. Without `LET` and
`LAMBDA` this replaces the references of the tokens, from the first character of the name up to the
closing bracket, each by the value that was looked up for it, and keeps every other character
(`substituted_eq_spliced`).
-/

namespace Quarterly.Formula

open Lexeme (isIdle isWordPart Spelled)

/-- A formula with values in place of its references, from a position on. -/
def spliced (formula : List Char) (value : Group → List Char) : Nat → List Group → List Char
  | position, [] => formula.drop position
  | position, g :: rest =>
    (formula.drop position).take (g.name.position - position) ++ value g ++
      spliced formula value (g.closing.position + 1) rest

variable {isFunction : String → Bool} {apart : Prop} {position : Nat} {formula cs : List Char}
  {tokens : List Token} {value : Group → List Char}

/-! ### Splicing along the stretches -/

/-- Characters in front of the first reference are kept. -/
theorem spliced_append {xs ys : List Char} {gs : List Group}
    (here : formula.drop position = xs ++ ys)
    (behind : ∀ g ∈ gs.head?, position + xs.length ≤ g.name.position) :
    spliced formula value position gs =
      xs ++ spliced formula value (position + xs.length) gs := by
  have next : formula.drop (position + xs.length) = ys := by
    rw [← List.drop_drop, here, List.drop_left]
  cases gs with
  | nil => rw [spliced, spliced, here, next]
  | cons g gs =>
    have le := behind g rfl
    obtain ⟨n, hn⟩ := Nat.exists_eq_add_of_le le
    have first : g.name.position - position = xs.length + n := by omega
    have second : g.name.position - (position + xs.length) = n := by omega
    rw [spliced, spliced, here, next, first, second, List.take_length_add_append]
    simp

/-- No reference starts in front of its stretch. -/
theorem Stretches.le_position (h : Stretches isFunction apart position cs tokens) :
    ∀ g ∈ (groups tokens).head?, position ≤ g.name.position := by
  induction h with
  | finish _ => simp [groups]
  | token _ _ _ _ _ others ih =>
    rw [groups_cons fun _ => others.firstKind_ne]
    intro g hg
    have := ih g hg
    omega
  | group _ _ kind opens closes start _ _ _ _ =>
    rw [groups_group kind opens closes]
    intro g hg
    obtain rfl := Option.some.inj hg
    omega

/-- References are written as references. -/
theorem Stretches.written_of_mem (h : Stretches isFunction apart position cs tokens)
    (here : formula.drop position = cs) {g : Group} (mem : g ∈ groups tokens) :
    ∃ name gap left index right, g.Written isFunction name gap left index right ∧
      g.slice formula = String.ofList (Group.chars name gap left index right) := by
  induction h with
  | finish _ => simp [groups] at mem
  | token _ _ _ _ _ others ih =>
    rw [groups_cons fun _ => others.firstKind_ne] at mem
    exact ih (drop_stretch here) mem
  | group _ written kind opens closes start stop _ _ ih =>
    rw [groups_group kind opens closes] at mem
    rcases List.mem_cons.mp mem with rfl | mem
    · exact ⟨_, _, _, _, _, written, Group.slice_eq here start stop⟩
    · exact ih (drop_stretch here) mem

/-! ### What a reference means -/

/-- The characters up to a closing bracket decide which token is first. -/
theorem Lexeme.at?_congr {c : Char} (noQuote : c ≠ '"' ∧ c ≠ '\'') (xs rest rest' : List Char) :
    at? isFunction c (xs ++ ']' :: rest) = at? isFunction c (xs ++ ']' :: rest') := by
  have taken (p : Char → Bool) (stop : p ']' = false) (xs rest : List Char) :
      (xs ++ ']' :: rest).takeWhile p = xs.takeWhile p := by
    induction xs with
    | nil => simp [stop]
    | cons d xs ih => by_cases h : p d = true <;> simp [h, ih]
  have dropped (xs rest : List Char) :
      (xs ++ ']' :: rest).dropWhile Text.isDigit = xs.dropWhile Text.isDigit ++ ']' :: rest := by
    have stop : Text.isDigit ']' = false := by decide
    induction xs with
    | nil => simp [stop]
    | cons d xs ih => by_cases h : Text.isDigit d = true <;> simp [h, ih]
  have first (rest : List Char) : (xs ++ ']' :: rest).head? = (xs ++ [']']).head? := by
    cases xs <;> rfl
  have one (rest : List Char) : (xs ++ ']' :: rest).take 1 = (xs ++ [']']).take 1 := by
    cases xs <;> rfl
  have numeral (rest : List Char) :
      numeralRest c (xs ++ ']' :: rest) = numeralRest c (xs ++ [']']) := by
    have stop : Text.isDigit ']' = false := by decide
    unfold numeralRest
    simp only [taken Text.isDigit stop, dropped]
    split
    · rfl
    cases xs.dropWhile Text.isDigit with
    | nil => simp
    | cons d more =>
      by_cases point : d = '.'
      · subst point
        simp [taken Text.isDigit stop]
      · simp [point]
  have noString : (c == '"' || c == '\'') = false := by simp [noQuote]
  unfold at?
  simp only [first rest, first rest', one rest, one rest', numeral rest, numeral rest',
    startsNumeral, taken isWordPart (by decide), noString, Bool.false_eq_true, if_false]

theorem Lexeme.first?_congr {xs : List Char} (noQuote : ∀ c ∈ xs, c ≠ '"' ∧ c ≠ '\'')
    (rest rest' : List Char) :
    first? isFunction (xs ++ ']' :: rest) = first? isFunction (xs ++ ']' :: rest') := by
  induction xs with
  | nil =>
    have closing (rest : List Char) :
        at? isFunction ']' rest = some ⟨.rightBracket, "]", 0⟩ := rfl
    rw [List.nil_append, List.nil_append, first?, first?, closing, closing]
    rfl
  | cons c xs ih =>
    rw [List.cons_append, List.cons_append, first?, first?,
      at?_congr (noQuote c List.mem_cons_self) xs rest rest',
      ih fun d hd => noQuote d (List.mem_cons_of_mem _ hd)]

section

variable {g g' : Group} {name gap left index right name' gap' left' index' right' : List Char}

theorem Group.Written.isReference (written : g.Written isFunction name gap left index right) :
    IsReference (Group.chars name gap left index right) := by
  refine ⟨name, gap, left ++ (index ++ right), by simp [Group.chars], written.word, written.gap, ?_⟩
  intro c hc
  simp only [List.mem_append] at hc
  rcases hc with hc | hc | hc
  · exact bracket_of_notMem (notMem_of_isIdle (written.left c hc))
  · exact bracket_of_notMem (written.inside.notMem c hc)
  · exact bracket_of_notMem (notMem_of_isIdle (written.right c hc))

/-- No quote stands in a reference. -/
theorem Group.Written.quote (written : g.Written isFunction name gap left index right) :
    ∀ c ∈ Group.chars name gap left index right, c ≠ '"' ∧ c ≠ '\'' := by
  intro c hc
  simp only [Group.chars, List.mem_append, List.mem_cons, List.not_mem_nil, or_false] at hc
  rcases hc with hc | hc | rfl | hc | hc | hc | rfl
  · exact quote_of_notMem (notMem_of_isWordPart (written.word.isWordPart c hc))
  · exact quote_of_notMem (notMem_of_isIdle (written.gap c hc))
  · decide
  · exact quote_of_notMem (notMem_of_isIdle (written.left c hc))
  · exact quote_of_notMem (written.inside.notMem c hc)
  · exact quote_of_notMem (notMem_of_isIdle (written.right c hc))
  · decide

/-- References that are written alike have the same name, and the same tokens in their brackets. -/
theorem Group.Written.same (written : g.Written isFunction name gap left index right)
    (written' : g'.Written isFunction name' gap' left' index' right')
    (same : Group.chars name gap left index right = Group.chars name' gap' left' index' right') :
    g.name.text = g'.name.text ∧ g.inside.kind = g'.inside.kind ∧
      g.inside.text = g'.inside.text := by
  obtain ⟨fronts, inners⟩ := eq_of_first (opening_notMem_front written.word.isRun written.gap)
    (opening_notMem_front written'.word.isRun written'.gap) (by simpa [Group.chars] using same)
  have names : name = name' := by
    have whole {name gap : List Char} (word : IsWord name) (idle : ∀ c ∈ gap, isIdle c = true) :
        (name ++ gap).takeWhile isWordPart = name :=
      takeWhile_append_of_stop word.isWordPart fun c hc =>
        isWordPart_of_isIdle (idle c (List.mem_of_mem_head? hc))
    rw [← whole written.word written.gap, fronts, whole written'.word written'.gap]
  have insides : left ++ (index ++ right) = left' ++ (index' ++ right') :=
    List.append_cancel_right (by simpa using inners)
  obtain ⟨rest, extra, first⟩ := written.first
  obtain ⟨rest', extra', first'⟩ := written'.first
  have noQuote : ∀ c ∈ left ++ (index ++ right), c ≠ '"' ∧ c ≠ '\'' := fun c hc =>
    written.quote c (by simp [Group.chars] at hc ⊢; grind)
  have whole (left index right rest : List Char) :
      left ++ (index ++ (right ++ ']' :: rest)) = (left ++ (index ++ right)) ++ ']' :: rest := by
    simp
  rw [whole] at first first'
  rw [Lexeme.first?_congr noQuote rest rest', insides, first', Option.some.injEq,
    Lexeme.mk.injEq] at first
  exact ⟨by rw [written.nameText, written'.nameText, names], first.1.symm, first.2.1.symm⟩

/-- The index of a reference does not depend on its place. -/
theorem Group.index_congr (kinds : g.inside.kind = g'.inside.kind)
    (texts : g.inside.text = g'.inside.text) : g.index = g'.index := by
  unfold Group.index Rule.quarterIndex
  rw [kinds, texts]
  dsimp only
  split
  · split <;> rfl
  · rfl
  · rfl

end

/-! ### Segments in pieces -/

/-- A segment of a formula in pieces. -/
structure Block where
  quoted : Bool
  pieces : List Piece

namespace Block

def segment (b : Block) : Segment := ⟨b.quoted, Piece.render [] b.pieces⟩

/-- The characters of a segment when all references have been replaced. -/
def final (b : Block) : List Char := b.pieces.flatMap Piece.final

/-- Quotes hold no references, and those outside are some of the given ones with their values. -/
structure Placed (gs : List Group) (formula : List Char) (value : Group → List Char) (b : Block) :
    Prop where
  plain : b.quoted = true → ∃ cs : List Char, b.pieces = cs.map Piece.plain
  placed : b.quoted = false → Piece.WellPlaced false b.pieces
  known : ∀ text v, .reference text v ∈ b.pieces →
    ∃ g ∈ gs, text = (g.slice formula).toList ∧ v = value g

end Block

namespace Piece

variable {blocked : Bool} {pieces : List Piece}

theorem render_plain (replaced : List (List Char)) (cs : List Char) :
    render replaced (cs.map plain) = cs := by
  simp [render, List.flatMap_map, chars]

theorem final_plain (cs : List Char) : (cs.map plain).flatMap final = cs := by
  simp [List.flatMap_map, final]

theorem render_append (replaced : List (List Char)) (ps qs : List Piece) :
    render replaced (ps ++ qs) = render replaced ps ++ render replaced qs := by
  simp [render]

/-- Characters in front of pieces. -/
theorem WellPlaced.plain_append {cs : List Char} (noOpening : '[' ∉ cs)
    (h : WellPlaced (endsInWord blocked cs) pieces) :
    WellPlaced blocked (cs.map plain ++ pieces) := by
  induction cs generalizing blocked with
  | nil => exact h
  | cons c cs ih =>
    simp only [List.mem_cons, not_or] at noOpening
    exact ⟨fun same => noOpening.1 same.symm, ih noOpening.2 h⟩

end Piece

/-! ### Splitting at quotes -/

theorem Segment.split_append {outside rest : List Char}
    (noQuote : ∀ c ∈ cs, c ≠ '"' ∧ c ≠ '\'') :
    Segment.split outside (cs ++ rest) = Segment.split (cs.reverse ++ outside) rest := by
  induction cs generalizing outside with
  | nil => rfl
  | cons c cs ih =>
    have here := noQuote c List.mem_cons_self
    rw [List.cons_append, Segment.split, if_neg (by simp [here]),
      ih fun d hd => noQuote d (List.mem_cons_of_mem _ hd)]
    simp

/-- A string is a segment of its own. -/
theorem Segment.split_string {text : String} {own rest : List Char} (outside : List Char)
    (h : Spelled isFunction .string text own rest) :
    Segment.split outside (own ++ rest) =
      ⟨false, outside.reverse⟩ :: ⟨true, own⟩ :: Segment.split [] rest := by
  cases h with
  | mark h => cases Lexeme.isMark_of_punctuation h
  | @string quote body _ isQuote noQuote =>
    have split : quote :: (body ++ [quote]) ++ rest = quote :: (body ++ quote :: rest) := by simp
    rw [split, Segment.split, if_pos isQuote]
    simp [takeWhile_ne_append noQuote]
  | @unclosed quote body isQuote noQuote =>
    have whole : body.takeWhile (· != quote) = body := takeWhile_ne_self noQuote
    have nothing : Segment.split [] [] = [⟨false, []⟩] := by
      rw [Segment.split]
      rfl
    rw [List.append_nil, nothing, Segment.split, if_pos isQuote]
    simp [whole, nothing, List.drop_eq_nil_of_le]

/-! ### Characters of other tokens -/

/-- Delimiters stand in strings and brackets only. -/
theorem Lexeme.Spelled.notMem {kind : TokenKind} {text : String} {own rest : List Char}
    (h : Spelled isFunction kind text own rest) (noString : kind ≠ .string)
    (noOpening : kind ≠ .leftBracket) (noClosing : kind ≠ .rightBracket) :
    ∀ c ∈ own, c ∉ delimiters := by
  intro c hc
  cases h with
  | mark h =>
    obtain rfl := List.mem_singleton.mp hc
    unfold Lexeme.punctuation? at h
    split at h <;> cases h <;>
      first | exact absurd rfl noOpening | exact absurd rfl noClosing | decide
  | operator _ h => exact notMem_of_all (by decide) (h c hc)
  | string _ _ | unclosed _ _ => exact absurd rfl noString
  | number _ h => exact notMem_of_isDigit_or (h c hc)
  | identifier start parts _ _ | function start parts _ =>
    exact notMem_of_isWordPart (IsWord.isWordPart ⟨_, _, rfl, start, parts⟩ c hc)

/-- A string ends with a quote, unless the text ends with it. -/
theorem Lexeme.Spelled.endsQuoted {text : String} {own rest : List Char}
    (h : Spelled isFunction .string text own rest) :
    rest = [] ∨ ∃ body quote, own = body ++ [quote] ∧ (quote = '"' ∨ quote = '\'') := by
  cases h with
  | mark h => cases Lexeme.isMark_of_punctuation h
  | @string quote body _ isQuote _ => exact .inr ⟨quote :: body, quote, rfl, isQuote⟩
  | unclosed => exact .inl rfl

/-- Only numbers run into a word behind them. -/
theorem Lexeme.Spelled.free {kind : TokenKind} {text : String} {own rest : List Char}
    {blocked : Bool} (h : Spelled isFunction kind text own rest) (noString : kind ≠ .string)
    (ends : endsInWord blocked own = true) :
    kind = .number ∨ ∀ c ∈ rest.head?, isWordPart c = false := by
  cases h with
  | mark h =>
    unfold Lexeme.punctuation? at h
    split at h <;> cases h <;> cases ends
  | operator notEmpty h =>
    obtain ⟨before, last, rfl⟩ := (List.eq_nil_or_concat own).resolve_left notEmpty
    rw [List.concat_eq_append, endsInWord_concat] at ends
    have others : ['+', '-', '*', '/', '%', '>', '<', '=', '!'].all (fun c => !isWordChar c) =
        true := by decide
    have := List.all_eq_true.mp others last (List.contains_iff_mem.mp (h last (by simp)))
    rw [ends] at this
    cases this
  | string _ _ | unclosed _ _ => exact absurd rfl noString
  | number _ _ => exact .inl rfl
  | identifier _ _ stops _ | function _ _ stops => exact .inr stops

/-! ### What runs into a reference -/

/-- Whether a word or a reference ends directly in front of a place. -/
def runsInto (formula : List Char) (position : Nat) : Bool :=
  (formula.take position).getLast?.any fun c => isWordChar c || c == ']'

/-- A reference ends with its closing bracket. -/
theorem Group.chars_eq (name gap left inside right : List Char) :
    Group.chars name gap left inside right =
      name ++ (gap ++ '[' :: (left ++ (inside ++ right))) ++ [']'] := by
  simp [Group.chars]

/-- Nothing runs into a reference. -/
def Group.Free (formula : List Char) (g : Group) : Prop :=
  runsInto formula g.name.position = false

instance (formula : List Char) (g : Group) : Decidable (g.Free formula) :=
  inferInstanceAs (Decidable (_ = false))

theorem runsInto_concat {xs ys : List Char} {c : Char}
    (here : formula.drop position = xs ++ [c] ++ ys) :
    runsInto formula (position + (xs ++ [c]).length) = (isWordChar c || c == ']') := by
  rw [runsInto, List.take_add, here, List.take_left, ← List.append_assoc, List.getLast?_concat]
  rfl

theorem runsInto_of_endsInWord {xs ys : List Char} {blocked : Bool}
    (here : formula.drop position = xs ++ ys)
    (before : blocked = true → runsInto formula position = true)
    (ends : endsInWord blocked xs = true) : runsInto formula (position + xs.length) = true := by
  rcases List.eq_nil_or_concat xs with rfl | ⟨xs, c, rfl⟩
  · exact before ends
  · rw [List.concat_eq_append] at here ends ⊢
    rw [endsInWord_concat] at ends
    rw [runsInto_concat here, ends]
    rfl

theorem runsInto_idle {idles ys : List Char} (here : formula.drop position = idles ++ ys)
    (idle : ∀ c ∈ idles, isIdle c = true)
    (ends : runsInto formula (position + idles.length) = true) :
    idles = [] ∧ runsInto formula position = true := by
  rcases List.eq_nil_or_concat idles with rfl | ⟨xs, c, rfl⟩
  · exact ⟨rfl, ends⟩
  · rw [List.concat_eq_append] at here idle ends
    have last := idle c (by simp)
    rw [runsInto_concat here, Bool.or_eq_true, beq_iff_eq] at ends
    rcases ends with word | closing
    · rw [show isWordChar c = false from isWordPart_of_isIdle last] at word
      cases word
    · exact absurd closing (bracket_of_notMem (notMem_of_isIdle last)).2

/-- Where no name stands directly behind a number or a reference, nothing runs into a reference. -/
theorem Stretches.free (h : Stretches isFunction True position cs tokens)
    (here : formula.drop position = cs)
    (before : runsInto formula position = true → firstKind tokens ≠ some .identifier ∨
      ∀ c ∈ cs.head?, isWordPart c = false) :
    ∀ g ∈ groups tokens, g.Free formula := by
  induction h with
  | finish _ => simp [groups]
  | @token position idles own rest kind text tokens idle spelled noOpening noClosing next others
      ih =>
    rw [groups_cons fun _ => others.firstKind_ne]
    refine ih (drop_stretch here) fun runs => ?_
    have nextOwn : formula.drop (position + idles.length) = own ++ rest := by
      rw [← List.drop_drop, here, List.drop_left]
    by_cases string : kind = .string
    · subst string
      rcases spelled.endsQuoted with rfl | ⟨body, quote, rfl, isQuote⟩
      · exact .inr (by simp)
      · rw [runsInto_concat nextOwn] at runs
        rcases isQuote with rfl | rfl <;> cases runs
    obtain ⟨xs, c, rfl⟩ := (List.eq_nil_or_concat own).resolve_left spelled.ne_nil
    rw [List.concat_eq_append] at spelled nextOwn runs
    rw [runsInto_concat nextOwn, Bool.or_eq_true, beq_iff_eq] at runs
    have plain := spelled.notMem string noOpening noClosing c (by simp)
    have ends : endsInWord false (xs ++ [c]) = true := by
      rw [endsInWord_concat]
      exact runs.resolve_right (bracket_of_notMem plain).2
    exact (spelled.free string ends).imp (next trivial) id
  | @group position idles name gap left index right rest tokens g opening idle written kind opens
      closes start stop next others ih =>
    rw [groups_group kind opens closes]
    refine List.forall_mem_cons.mpr ⟨?_, ih (drop_stretch here) fun _ => .inl (next trivial)⟩
    refine Bool.eq_false_iff.mpr fun runs => ?_
    rw [start] at runs
    obtain ⟨rfl, inFront⟩ := runsInto_idle here idle runs
    rcases before inFront with noName | noWord
    · exact noName (by simp [firstKind, kind])
    · obtain ⟨c, more, rfl, start, parts⟩ := written.word
      have part := IsWord.isWordPart ⟨c, more, rfl, start, parts⟩ c List.mem_cons_self
      rw [noWord c (by simp [Group.chars])] at part
      cases part

/-! ### A formula in blocks -/

theorem plain_of_isIdle {idles : List Char} (idle : ∀ c ∈ idles, isIdle c = true) :
    (∀ c ∈ idles, c ≠ '"' ∧ c ≠ '\'') ∧ '[' ∉ idles :=
  ⟨fun c hc => quote_of_notMem (notMem_of_isIdle (idle c hc)),
    fun h => (bracket_of_notMem (notMem_of_isIdle (idle _ h))).1 rfl⟩

/-- What a formula is split into from some place on, where `outside` has been read since the last
string: pieces up to the next string, and further blocks. -/
structure SplitsAs (formula : List Char) (value : Group → List Char) (position : Nat)
    (cs : List Char) (gs : List Group) (blocked : Bool) (pieces : List Piece)
    (blocks : List Block) : Prop where
  split : ∀ outside, Segment.split outside cs =
    ⟨false, outside.reverse ++ Piece.render [] pieces⟩ :: blocks.map Block.segment
  placed : Piece.WellPlaced blocked pieces
  known : ∀ text v, .reference text v ∈ pieces →
    ∃ g ∈ gs, text = (g.slice formula).toList ∧ v = value g
  placedBlocks : ∀ b ∈ blocks, b.Placed gs formula value
  final : pieces.flatMap Piece.final ++ blocks.flatMap Block.final =
    spliced formula value position gs

namespace SplitsAs

variable {gs : List Group} {blocked : Bool} {pieces : List Piece} {blocks : List Block}
  {idles own rest : List Char}

/-- The first pieces are a block of their own. -/
theorem placed_all (h : SplitsAs formula value position cs gs false pieces blocks) :
    ∀ b ∈ ⟨false, pieces⟩ :: blocks, b.Placed gs formula value := by
  intro b mem
  rcases List.mem_cons.mp mem with rfl | mem
  · exact ⟨fun h => Bool.noConfusion h, fun _ => h.placed, h.known⟩
  · exact h.placedBlocks b mem

/-- Characters in front that are no quotes and no brackets. -/
theorem plain_append {xs : List Char}
    (h : SplitsAs formula value (position + xs.length) cs gs (endsInWord blocked xs) pieces blocks)
    (here : formula.drop position = xs ++ cs) (plain : ∀ c ∈ xs, c ≠ '"' ∧ c ≠ '\'')
    (noOpening : '[' ∉ xs) (behind : ∀ g ∈ gs.head?, position + xs.length ≤ g.name.position) :
    SplitsAs formula value position (xs ++ cs) gs blocked (xs.map .plain ++ pieces) blocks where
  split outside := by
    rw [Segment.split_append plain, h.split, Piece.render_append, Piece.render_plain]
    simp
  placed := h.placed.plain_append noOpening
  known text v mem := h.known text v (by simpa using mem)
  placedBlocks := h.placedBlocks
  final := by
    rw [spliced_append here behind, ← h.final, List.flatMap_append, Piece.final_plain]
    simp

/-- A string in front. -/
theorem string_append {text : String} (blocked : Bool)
    (h : SplitsAs formula value (position + own.length) rest gs false pieces blocks)
    (spelled : Spelled isFunction .string text own rest)
    (here : formula.drop position = own ++ rest)
    (behind : ∀ g ∈ gs.head?, position + own.length ≤ g.name.position) :
    SplitsAs formula value position (own ++ rest) gs blocked []
      (⟨true, own.map .plain⟩ :: ⟨false, pieces⟩ :: blocks) where
  split outside := by
    rw [Segment.split_string _ spelled, h.split, List.map_cons, List.map_cons, Block.segment,
      Block.segment, Piece.render_plain]
    simp [Piece.render]
  placed := trivial
  known text v mem := by cases mem
  placedBlocks b mem := by
    rcases List.mem_cons.mp mem with rfl | mem
    · exact ⟨fun _ => ⟨own, rfl⟩, fun h => Bool.noConfusion h, fun _ _ h => by simp at h⟩
    rcases List.mem_cons.mp mem with rfl | mem
    · exact ⟨fun h => Bool.noConfusion h, fun _ => h.placed, h.known⟩
    · exact h.placedBlocks b mem
  final := by
    rw [spliced_append here behind, ← h.final]
    simp [Block.final, Piece.final_plain]

/-- A reference in front. -/
theorem group_append {g : Group} {name gap left index right : List Char}
    (h : SplitsAs formula value (position + (Group.chars name gap left index right).length) rest gs
      true pieces blocks)
    (written : g.Written isFunction name gap left index right)
    (here : formula.drop position = Group.chars name gap left index right ++ rest)
    (start : g.name.position = position)
    (stop : g.closing.position + 1 = position + (Group.chars name gap left index right).length)
    (noOpening : '[' ∉ value g) :
    SplitsAs formula value position (Group.chars name gap left index right ++ rest) (g :: gs) false
      (.reference (Group.chars name gap left index right) (value g) :: pieces) blocks where
  split outside := by
    rw [Segment.split_append written.quote, h.split]
    simp [Piece.render, Piece.chars]
  placed := ⟨rfl, written.isReference, noOpening, h.placed⟩
  known text v mem := by
    rcases List.mem_cons.mp mem with same | mem
    · cases same
      have noIdles : formula.drop position =
          [] ++ (Group.chars name gap left index right ++ rest) := here
      have slice : g.slice formula = String.ofList (Group.chars name gap left index right) :=
        Group.slice_eq noIdles start stop
      exact ⟨g, List.mem_cons_self, by rw [slice, String.toList_ofList], rfl⟩
    · obtain ⟨g', mem, found⟩ := h.known text v mem
      exact ⟨g', List.mem_cons_of_mem _ mem, found⟩
  placedBlocks b mem := by
    have placed := h.placedBlocks b mem
    refine ⟨placed.plain, placed.placed, fun text v found => ?_⟩
    obtain ⟨g', mem, found⟩ := placed.known text v found
    exact ⟨g', List.mem_cons_of_mem _ mem, found⟩
  final := by
    rw [spliced, start, Nat.sub_self, List.take_zero, stop, ← h.final]
    simp [Piece.final]

end SplitsAs

/-- How a formula is split into blocks along its stretches. -/
theorem Stretches.splitsAs (h : Stretches isFunction apart position cs tokens)
    (here : formula.drop position = cs) (noOpening : ∀ g, '[' ∉ value g)
    (free : ∀ g ∈ groups tokens, g.Free formula) (blocked : Bool)
    (before : blocked = true → runsInto formula position = true) :
    ∃ pieces blocks,
      SplitsAs formula value position cs (groups tokens) blocked pieces blocks := by
  induction h generalizing blocked with
  | @finish position cs idle =>
    refine ⟨cs.map .plain, [], ?_, ?_, fun _ _ mem => by simp at mem, by simp, ?_⟩
    · intro outside
      have plain := plain_of_isIdle idle
      rw [← List.append_nil cs, Segment.split_append plain.1, Segment.split, List.append_nil,
        Piece.render_plain]
      simp
    · have placed : Piece.WellPlaced (endsInWord blocked cs) [] := trivial
      simpa using placed.plain_append (plain_of_isIdle idle).2
    · rw [Piece.final_plain]
      simp [groups, spliced, here]
  | @token position idles own rest kind text tokens idle spelled noBracket noClosing _ others ih =>
    have plainIdles := plain_of_isIdle idle
    have behind := others.le_position
    have inFront : ∀ g ∈ (groups tokens).head?, position + idles.length ≤ g.name.position :=
      fun g hg => Nat.le_trans (Nat.le_add_right _ _) (behind g hg)
    have nextOwn : formula.drop (position + idles.length) = own ++ rest := by
      rw [← List.drop_drop, here, List.drop_left]
    rw [groups_cons fun _ => others.firstKind_ne] at free ⊢
    by_cases string : kind = .string
    · subst string
      obtain ⟨pieces, blocks, found⟩ :=
        ih (drop_stretch here) free false fun h => Bool.noConfusion h
      have ownFound := found.string_append (endsInWord blocked idles) spelled nextOwn behind
      exact ⟨_, _, ownFound.plain_append here plainIdles.1 plainIdles.2 inFront⟩
    · have plain := spelled.notMem string noBracket noClosing
      obtain ⟨pieces, blocks, found⟩ := ih (drop_stretch here) free _
        (runsInto_of_endsInWord nextOwn (runsInto_of_endsInWord here before))
      have ownFound := found.plain_append nextOwn (fun c hc => quote_of_notMem (plain c hc))
        (fun opening => (bracket_of_notMem (plain _ opening)).1 rfl) behind
      exact ⟨_, _, ownFound.plain_append here plainIdles.1 plainIdles.2 inFront⟩
  | @group position idles name gap left index right rest tokens g opening idle written kind opens
      closes start stop next others ih =>
    have plainIdles := plain_of_isIdle idle
    have nextChars : formula.drop (position + idles.length) =
        Group.chars name gap left index right ++ rest := by
      rw [← List.drop_drop, here, List.drop_left]
    rw [groups_group kind opens closes] at free ⊢
    obtain ⟨isFree, freeOthers⟩ := List.forall_mem_cons.mp free
    have closing : runsInto formula
        (position + idles.length + (Group.chars name gap left index right).length) = true := by
      rw [Group.chars_eq] at nextChars ⊢
      rw [runsInto_concat nextChars]
      rfl
    obtain ⟨pieces, blocks, found⟩ := ih (drop_stretch here) freeOthers true fun _ => closing
    have whole := found.group_append written nextChars start stop (noOpening g)
    have notBlocked : endsInWord blocked idles = false := by
      refine Bool.eq_false_iff.mpr fun ends => ?_
      have runs := runsInto_of_endsInWord here before ends
      rw [← start, isFree] at runs
      cases runs
    rw [← notBlocked] at whole
    exact ⟨_, _, whole.plain_append here plainIdles.1 plainIdles.2 fun g' hg => by
      obtain rfl := Option.some.inj hg
      omega⟩

/-! ### The references that are replaced -/

section

variable {substitutions : List Substitution}

theorem exists_of_mem_bracketed {r : String × Value} (h : r ∈ bracketed substitutions) :
    ∃ s ∈ substitutions.filter Substitution.isBracketed, s.reference = r.1 ∧ s.value = r.2 := by
  induction substitutions with
  | nil => cases h
  | cons s rest ih =>
    by_cases isBracketed : s.reference.toList.contains '[' = true
    · have kept : (s :: rest).filter Substitution.isBracketed =
          s :: rest.filter Substitution.isBracketed := List.filter_cons_of_pos isBracketed
      rw [bracketed, if_pos isBracketed] at h
      rw [kept]
      rcases List.mem_cons.mp h with rfl | h
      · exact ⟨s, List.mem_cons_self, rfl, rfl⟩
      · obtain ⟨s', mem, found⟩ := ih (List.mem_of_mem_filter h)
        exact ⟨s', List.mem_cons_of_mem _ mem, found⟩
    · have passed : (s :: rest).filter Substitution.isBracketed =
          rest.filter Substitution.isBracketed := List.filter_cons_of_neg isBracketed
      rw [bracketed, if_neg isBracketed] at h
      rw [passed]
      exact ih h

theorem exists_mem_bracketed {s : Substitution}
    (h : s ∈ substitutions.filter Substitution.isBracketed) :
    ∃ r ∈ bracketed substitutions, r.1 = s.reference := by
  induction substitutions with
  | nil => cases h
  | cons first rest ih =>
    by_cases isBracketed : first.reference.toList.contains '[' = true
    · have kept : (first :: rest).filter Substitution.isBracketed =
          first :: rest.filter Substitution.isBracketed := List.filter_cons_of_pos isBracketed
      rw [bracketed, if_pos isBracketed]
      by_cases same : s.reference = first.reference
      · exact ⟨_, List.mem_cons_self, same.symm⟩
      rw [kept] at h
      rcases List.mem_cons.mp h with rfl | h
      · exact absurd rfl same
      · obtain ⟨r, mem, found⟩ := ih h
        refine ⟨r, List.mem_cons_of_mem _ (List.mem_filter.mpr ⟨mem, ?_⟩), found⟩
        simpa [found] using same
    · have passed : (first :: rest).filter Substitution.isBracketed =
          rest.filter Substitution.isBracketed := List.filter_cons_of_neg isBracketed
      rw [passed] at h
      rw [bracketed, if_neg isBracketed]
      exact ih h

end

/-- The references that are replaced with their values, in order. -/
def replacements (substitutions : List Substitution) : List (String × Value) :=
  (bracketed substitutions).mergeSort fun a b => b.1.length ≤ a.1.length

theorem exists_of_mem_replacements {substitutions : List Substitution} {r : String × Value}
    (h : r ∈ replacements substitutions) :
    ∃ s ∈ substitutions.filter Substitution.isBracketed, s.reference = r.1 ∧ s.value = r.2 :=
  exists_of_mem_bracketed (List.mem_mergeSort.mp h)

theorem exists_mem_replacements {substitutions : List Substitution} {s : Substitution}
    (h : s ∈ substitutions.filter Substitution.isBracketed) :
    ∃ r ∈ replacements substitutions, r.1 = s.reference := by
  obtain ⟨r, hr, named⟩ := exists_mem_bracketed h
  exact ⟨r, List.mem_mergeSort.mpr hr, named⟩

/-- Each segment is replaced in on its own. -/
theorem substituted_eq_flatMap (formula : List Char) (substitutions : List Substitution) :
    substituted (String.ofList formula) substitutions =
      String.ofList (((Segment.split [] formula).map
        (Segment.replace (replacements substitutions))).flatMap (·.chars)) := by
  rw [← foldl_map_substitute, substituted, String.toList_ofList]
  rfl

/-- No delimiter stands in the text of a value that was looked up. -/
theorem notMem_lookupValue (found : Metric.Lookup Float) :
    ∀ c ∈ (lookupValue found).toText.toList, c ∉ delimiters := by
  unfold lookupValue
  split
  · intro c hc
    have numeric := Number.isNumeric_of_mem_doubleText hc
    exact notMem_of_all (by decide) numeric
  · have parts : ∀ c ∈ ['n', 'u', 'l', 'l'], isWordPart c = true := List.all_eq_true.mp rfl
    exact fun c hc => notMem_of_isWordPart (parts c hc)

theorem opening_notMem_lookupValue (found : Metric.Lookup Float) :
    '[' ∉ (lookupValue found).toText.toList :=
  fun opening => (bracket_of_notMem (notMem_lookupValue found _ opening)).1 rfl

/-- All references of a block are replaced by their values. -/
theorem Block.Placed.replace {references : List (String × Value)} {gs : List Group} {b : Block}
    (h : b.Placed gs formula value) (isReference : ∀ r ∈ references, IsReference r.1.toList)
    (agrees : ∀ r ∈ references, ∀ g ∈ gs, (g.slice formula) = r.1 → value g = r.2.toText.toList)
    (all : ∀ g ∈ gs, ∃ r ∈ references, r.1 = g.slice formula) :
    Segment.replace references b.segment = ⟨b.quoted, b.final⟩ := by
  obtain ⟨quoted, pieces⟩ := b
  cases quoted with
  | true =>
    obtain ⟨cs, rfl⟩ := h.plain rfl
    rw [Block.segment, Piece.render_plain, Segment.replace_quoted, Block.final, Piece.final_plain]
  | false =>
    refine Segment.replace_all (h.placed rfl) isReference (fun r hr v mem => ?_)
      fun text v mem => ?_
    · obtain ⟨g, hg, same, rfl⟩ := h.known _ v mem
      exact agrees r hr g hg (String.toList_inj.mp same.symm)
    · obtain ⟨g, hg, rfl, _⟩ := h.known text v mem
      obtain ⟨r, hr, same⟩ := all g hg
      exact ⟨r, hr, by rw [same]⟩

/-! ### The formula of a trace -/

section

variable {g g' : Group} {gs : List Group} {c : Context}

/-- What replaces a reference. -/
def Group.valueText (c : Context) (g : Group) : List Char :=
  (g.substitution c).value.toText.toList

theorem Stretches.isReference_slice (h : Stretches isFunction apart position cs tokens)
    (here : formula.drop position = cs) (mem : g ∈ groups tokens) :
    IsReference (g.slice formula).toList := by
  obtain ⟨_, _, _, _, _, written, slice⟩ := h.written_of_mem here mem
  rw [slice, String.toList_ofList]
  exact written.isReference

/-- References that are written alike are replaced alike. -/
theorem Stretches.valueText_eq (h : Stretches isFunction apart position cs tokens)
    (here : formula.drop position = cs) (mem : g ∈ groups tokens) (mem' : g' ∈ groups tokens)
    (same : g.slice formula = g'.slice formula) : g.valueText c = g'.valueText c := by
  obtain ⟨_, _, _, _, _, written, slice⟩ := h.written_of_mem here mem
  obtain ⟨_, _, _, _, _, written', slice'⟩ := h.written_of_mem here mem'
  rw [slice, slice', String.ofList_inj] at same
  obtain ⟨names, kinds, texts⟩ := written.same written' same
  have found : (g.substitution c).found = (g'.substitution c).found := by
    change c.table.resolve _ _ = c.table.resolve _ _
    rw [names, Group.index_congr kinds texts]
  unfold Group.valueText Substitution.value
  rw [found]

/-- Where all references of a formula are among those that are replaced, each block is left with
their values. -/
theorem SplitsAs.map_replace {pieces : List Piece} {blocks : List Block}
    {substitutions : List Substitution}
    (h : SplitsAs c.formula (·.valueText c) 0 c.formula gs false pieces blocks)
    (noted : ∀ s ∈ substitutions.filter Substitution.isBracketed, ∃ g ∈ gs, s = g.substitution c)
    (all : ∀ g ∈ gs, ∃ s ∈ substitutions.filter Substitution.isBracketed,
      s.reference = g.slice c.formula)
    (isReference : ∀ g ∈ gs, IsReference (g.slice c.formula).toList)
    (alike : ∀ g ∈ gs, ∀ g' ∈ gs, g.slice c.formula = g'.slice c.formula →
      g.valueText c = g'.valueText c) :
    (Segment.split [] c.formula).map (Segment.replace (replacements substitutions)) =
      (⟨false, pieces⟩ :: blocks).map fun b => ⟨b.quoted, b.final⟩ := by
  have split : Segment.split [] c.formula =
      ((⟨false, pieces⟩ : Block) :: blocks).map Block.segment := by
    rw [h.split]
    rfl
  -- The references that are replaced are those of the tokens.
  have ofGroup : ∀ r ∈ replacements substitutions, ∃ g ∈ gs,
      g.slice c.formula = r.1 ∧ g.valueText c = r.2.toText.toList := by
    intro r hr
    obtain ⟨s, mem, named, found⟩ := exists_of_mem_replacements hr
    obtain ⟨g, hg, rfl⟩ := noted s mem
    exact ⟨g, hg, named, by rw [Group.valueText, found]⟩
  have replaced : ∀ g ∈ gs, ∃ r ∈ replacements substitutions, r.1 = g.slice c.formula := by
    intro g mem
    obtain ⟨s, hs, same⟩ := all g mem
    exact same ▸ exists_mem_replacements hs
  have areReferences : ∀ r ∈ replacements substitutions, IsReference r.1.toList := by
    intro r hr
    obtain ⟨g, mem, named, _⟩ := ofGroup r hr
    exact named ▸ isReference g mem
  have agrees : ∀ r ∈ replacements substitutions, ∀ g ∈ gs, g.slice c.formula = r.1 →
      g.valueText c = r.2.toText.toList := by
    intro r hr g mem named
    obtain ⟨g', mem', named', found⟩ := ofGroup r hr
    exact (alike g mem g' mem' (named.trans named'.symm)).trans found
  rw [split, List.map_map]
  exact List.map_congr_left fun b mem =>
    (h.placed_all b mem).replace areReferences agrees replaced

/-- Replacing the references of a formula in blocks. -/
theorem SplitsAs.substituted_eq {pieces : List Piece} {blocks : List Block}
    {substitutions : List Substitution}
    (h : SplitsAs formula (·.valueText c) 0 formula gs false pieces blocks)
    (same : c.formula = formula)
    (recorded : substitutions.filter Substitution.isBracketed = gs.map (·.substitution c))
    (isReference : ∀ g ∈ gs, IsReference (g.slice formula).toList)
    (alike : ∀ g ∈ gs, ∀ g' ∈ gs, g.slice formula = g'.slice formula →
      g.valueText c = g'.valueText c) :
    substituted (String.ofList formula) substitutions =
      String.ofList (spliced formula (·.valueText c) 0 gs) := by
  subst same
  have noted : ∀ s ∈ substitutions.filter Substitution.isBracketed,
      ∃ g ∈ gs, s = g.substitution c := by
    rw [recorded]
    exact List.forall_mem_map.mpr fun g hg => ⟨g, hg, rfl⟩
  have all : ∀ g ∈ gs, ∃ s ∈ substitutions.filter Substitution.isBracketed,
      s.reference = g.slice c.formula := by
    rw [recorded]
    exact fun g hg => ⟨_, List.mem_map_of_mem hg, rfl⟩
  rw [substituted_eq_flatMap, h.map_replace noted all isReference alike, List.flatMap_map]
  exact congrArg _ h.final

end

/-- Without `LET` and `LAMBDA`, an evaluation that comes back has looked up every reference of the
tokens, in order, and the formula of its trace has the values in their places and is otherwise the
same. -/
theorem substituted_eq_spliced (e : Evaluator) (written : String)
    (tracing : e.settings.collectTrace = true)
    (noLet : Lacks (e.context (formulaChars written)).tokens letName)
    (noLambda : Lacks (e.context (formulaChars written)).tokens lambdaName) {v : Value}
    (h : (evaluate (e.context (formulaChars written)) .live []).outcome = .ok v) :
    let c := e.context (formulaChars written)
    let references := groups c.tokens.toList
    (∀ g ∈ references, ∃ k, Rule.quarterIndex g.inside = .ok k) ∧
    ∃ trace, (e.evaluate written).trace = some trace ∧
      trace.substitutions.filter Substitution.isBracketed = references.map (·.substitution c) ∧
      trace.substituted = String.ofList (spliced c.formula (·.valueText c) 0 references) := by
  intro c references
  have tokenized : c.IsTokenized := rfl
  have ends : EndsOnce c.tokens := endsOnce_tokenize _ _
  obtain ⟨indexed, noted⟩ := bracketed_of_evaluate (tokenized.telling tracing noLambda) ends h
  have stretches : Stretches isFunctionName True 0 c.formula c.tokens.toList :=
    tokenized.spans.stretches (grouped_of_evaluate ends (fun _ => noLet.functionAt_ne) h)
  obtain ⟨trace, traced, substitutions, formula⟩ := exists_trace tracing written
  have recorded : trace.substitutions.filter Substitution.isBracketed =
      references.map (·.substitution c) := by
    rw [substitutions]
    exact noted
  have noOpening : ∀ g, '[' ∉ Group.valueText c g := fun _ => opening_notMem_lookupValue _
  obtain ⟨pieces, blocks, splits⟩ :=
    stretches.splitsAs List.drop_zero noOpening
      (stretches.free List.drop_zero fun runs => Bool.noConfusion runs) false
      fun h => Bool.noConfusion h
  refine ⟨indexed, trace, traced, recorded, ?_⟩
  rw [formula, ← substitutions]
  exact splits.substituted_eq rfl recorded
    (fun _ mem => stretches.isReference_slice List.drop_zero mem)
    fun _ mem _ mem' => stretches.valueText_eq List.drop_zero mem mem'

/-- References that are part of each other, repeat and stand in a string. -/
def overlapping : String := "IF(Sales[Q2] > Sales [ 1 ], NetSales[Q1] + Sales[Q2], \"Sales[Q2]\")"

/-- An evaluator over two quarters that keeps a trace. -/
def tracedQuarters : Evaluator where
  settings := { collectTrace := true }
  selected := []
  table :=
    { cells := [("Sep 2024", [("Sales", some 50000)]), ("Jun 2024", [("Sales", some 0.5)])]
      quarters := ["Sep 2024", "Jun 2024"], windowSize := 2 }

theorem substituted_overlapping :
    ∃ trace, (tracedQuarters.evaluate overlapping).trace = some trace ∧
      trace.substituted = "IF(50000 > 0.5, null + 50000, \"Sales[Q2]\")" := by
  obtain ⟨v, h⟩ : ∃ v,
      (evaluate (tracedQuarters.context (formulaChars overlapping)) .live []).outcome = .ok v :=
    exists_value (by decide +kernel)
  obtain ⟨_, trace, traced, _, replaced⟩ := substituted_eq_spliced tracedQuarters overlapping rfl
    (by decide +kernel) (by decide +kernel) h
  refine ⟨trace, traced, replaced.trans ?_⟩
  decide +kernel

end Quarterly.Formula
