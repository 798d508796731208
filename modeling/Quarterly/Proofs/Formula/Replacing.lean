import Mathlib.Data.List.Basic
import Quarterly.Formula.Substituted
import Quarterly.Proofs.Formula.Stretches

/-!
# Replacing references by their values

Outside quotes a formula is a row of pieces: single characters and references. Replacing one
reference after the other by its value goes through the text and not through the pieces, and earlier
replacements have changed the text. Yet it replaces exactly the pieces meant
(`replaceWhole_render`): opening brackets stand in references only, values bring none in, and what
stands in front of an opening bracket tells where its reference starts, since no word runs into it.
-/

namespace Quarterly.Formula

open Lexeme (isIdle isWordPart)

/-- A text in the form of a reference: a word and brackets behind it. -/
def IsReference (text : List Char) : Prop :=
  ∃ name gap inner, text = name ++ (gap ++ '[' :: (inner ++ [']'])) ∧ IsWord name ∧
    (∀ c ∈ gap, isIdle c = true) ∧ ∀ c ∈ inner, c ≠ '[' ∧ c ≠ ']'

/-- Characters that words have, which need not start like a word. -/
def IsRun (cs : List Char) : Prop := cs ≠ [] ∧ ∀ c ∈ cs, isWordPart c = true

/-- Like a reference, but with any word characters in place of its name. -/
def IsBracketed (text : List Char) : Prop :=
  ∃ run gap inner, text = run ++ (gap ++ '[' :: (inner ++ [']'])) ∧ IsRun run ∧
    (∀ c ∈ gap, isIdle c = true) ∧ ∀ c ∈ inner, c ≠ '[' ∧ c ≠ ']'

theorem IsWord.isRun {word : List Char} (h : IsWord word) : IsRun word := by
  refine ⟨?_, h.isWordPart⟩
  obtain ⟨c, more, rfl, _⟩ := h
  exact List.cons_ne_nil c more

theorem IsReference.isBracketed {text : List Char} (h : IsReference text) : IsBracketed text := by
  obtain ⟨name, gap, inner, split, word, others⟩ := h
  exact ⟨name, gap, inner, split, word.isRun, others⟩

/-- A piece of a formula outside quotes. -/
inductive Piece where
  | plain (c : Char)
  /-- A reference with the value that it is replaced by. -/
  | reference (text value : List Char)

namespace Piece

/-- The characters of a piece when some references have been replaced by their values. -/
def chars (replaced : List (List Char)) : Piece → List Char
  | plain c => [c]
  | reference text value => if text ∈ replaced then value else text

/-- The characters of a row of pieces when some references have been replaced. -/
def render (replaced : List (List Char)) (pieces : List Piece) : List Char :=
  pieces.flatMap (chars replaced)

/-- No brackets stand outside references, and nothing runs into a reference: neither a word nor
another reference. `blocked` tells whether something runs into the first piece. -/
def WellPlaced : Bool → List Piece → Prop
  | _, [] => True
  | _, plain c :: rest => c ≠ '[' ∧ WellPlaced (isWordChar c) rest
  | blocked, reference text value :: rest =>
    blocked = false ∧ IsReference text ∧ '[' ∉ value ∧ WellPlaced true rest

end Piece

/-! ### Where a reference can stand -/

section

variable {run gap : List Char} (isRun : IsRun run) (idle : ∀ c ∈ gap, isIdle c = true)

include isRun idle

/-- No bracket stands in front of the opening one. -/
theorem bracket_of_mem_front {c : Char} (h : c ∈ run ++ gap) : c ≠ '[' ∧ c ≠ ']' := by
  rcases List.mem_append.mp h with h | h
  · exact bracket_of_notMem (notMem_of_isWordPart (isRun.2 c h))
  · exact bracket_of_notMem (notMem_of_isIdle (idle c h))

theorem opening_notMem_front : '[' ∉ run ++ gap :=
  fun h => (bracket_of_mem_front isRun idle h).1 rfl

/-- In front of the opening bracket no word follows another one. -/
theorem isIdle_of_front {c : Char} {before behind : List Char}
    (split : run ++ gap = before ++ c :: behind) (noPart : isWordPart c = false) :
    ∀ d ∈ behind, isIdle d = true := by
  intro d hd
  rcases List.append_eq_append_iff.mp split with ⟨more, rfl, same⟩ | ⟨more, rfl, same⟩
  · exact idle d (same ▸ by simp [hd])
  · cases more with
    | nil =>
      rw [List.nil_append] at same
      exact idle d (same ▸ List.mem_cons_of_mem _ hd)
    | cons e more =>
      obtain ⟨rfl, _⟩ := List.cons.inj same
      have part := isRun.2 c (by simp)
      rw [noPart] at part
      cases part

end

/-- A text with brackets does not stand where a closing one comes first. -/
theorem IsBracketed.not_isPrefix {text front behind : List Char} (h : IsBracketed text)
    (noOpening : '[' ∉ front) : ¬ text <+: front ++ ']' :: behind := by
  rintro ⟨rest, split⟩
  obtain ⟨run, gap, inner, rfl, isRun, idle, _⟩ := h
  let isBracket (c : Char) : Bool := c == '[' || c == ']'
  have none : (run ++ gap).find? isBracket = none := by
    rw [List.find?_eq_none]
    intro c hc
    have := bracket_of_mem_front isRun idle hc
    simp [isBracket, this]
  have first : (front ++ ']' :: behind).find? isBracket = some '[' := by
    rw [← split, ← List.append_assoc run, List.append_assoc, List.find?_append, none]
    rfl
  rw [List.find?_append] at first
  cases found : front.find? isBracket with
  | none =>
    rw [found] at first
    cases first
  | some c =>
    rw [found, Option.some_or, Option.some.injEq] at first
    exact noOpening (first ▸ List.mem_of_find?_eq_some found)

/-- Where two texts with brackets stand, they are the same. -/
theorem IsBracketed.eq_of_isPrefix {wanted text behind : List Char} (bracketed : IsBracketed wanted)
    (h : IsBracketed text) (start : wanted <+: text ++ behind) : wanted = text := by
  obtain ⟨rest, split⟩ := start
  obtain ⟨run, gap, inner, rfl, isRun, idle, plain⟩ := bracketed
  obtain ⟨run', gap', inner', rfl, isRun', idle', plain'⟩ := h
  have split' : (run ++ gap) ++ '[' :: (inner ++ ']' :: rest) =
      (run' ++ gap') ++ '[' :: (inner' ++ ']' :: behind) := by simpa using split
  obtain ⟨fronts, behinds⟩ := eq_of_first (opening_notMem_front isRun idle)
    (opening_notMem_front isRun' idle') split'
  obtain ⟨rfl, _⟩ := eq_of_first (fun h => (plain _ h).2 rfl)
    (fun h => (plain' _ h).2 rfl) behinds
  rw [← List.append_assoc, fronts, List.append_assoc]

section

variable {wanted : List Char} (reference : IsReference wanted)

include reference

theorem IsReference.opening_mem : '[' ∈ wanted := by
  obtain ⟨name, gap, inner, rfl, _⟩ := reference
  simp

theorem not_isPrefix_of_noOpening {text : List Char} (h : '[' ∉ text) : ¬ wanted <+: text :=
  fun start => h (start.subset reference.opening_mem)

theorem isWordPart_of_isPrefix {c : Char} {text : List Char} (h : wanted <+: c :: text) :
    isWordPart c = true := by
  obtain ⟨name, gap, inner, rfl, ⟨d, more, rfl, start, parts⟩, _⟩ := reference
  obtain ⟨rfl, _⟩ := List.cons_prefix_cons.mp h
  exact IsWord.isWordPart ⟨_, more, rfl, start, parts⟩ _ List.mem_cons_self

/-- A reference does not stand where something other than a word comes in front of another
text with brackets. -/
theorem not_isPrefix_of_other {front run gap behind : List Char} (notEmpty : front ≠ [])
    (noOpening : '[' ∉ front) (last : ∀ c ∈ front.getLast?, isWordPart c = false)
    (isRun : IsRun run) (idle : ∀ c ∈ gap, isIdle c = true) :
    ¬ wanted <+: front ++ (run ++ (gap ++ '[' :: behind)) := by
  rintro ⟨rest, split⟩
  obtain ⟨name, gap', inner, rfl, word, idle', _⟩ := reference
  have whole : (name ++ gap') ++ '[' :: (inner ++ ']' :: rest) =
      (front ++ (run ++ gap)) ++ '[' :: behind := by simpa using split
  have fronts : name ++ gap' = front ++ (run ++ gap) := by
    refine (eq_of_first (opening_notMem_front word.isRun idle') (fun h => ?_) whole).1
    rcases List.mem_append.mp h with h | h
    · exact noOpening h
    · exact opening_notMem_front isRun idle h
  obtain ⟨c, hc⟩ := Option.isSome_iff_exists.mp (List.getLast?_isSome.mpr notEmpty)
  obtain ⟨before, rfl⟩ := List.getLast?_eq_some_iff.mp hc
  obtain ⟨d, more, rfl⟩ := List.exists_cons_of_ne_nil isRun.1
  have split' : name ++ gap' = before ++ c :: (d :: more ++ gap) := by simpa using fronts
  have isIdle := isIdle_of_front word.isRun idle' split' (last c hc) d (by simp)
  have part := isRun.2 d List.mem_cons_self
  rw [isWordPart_of_isIdle isIdle] at part
  cases part

end

/-! ### Passing over text -/

/-- Whether a word runs into what follows some characters. -/
def endsInWord (inWord : Bool) (cs : List Char) : Bool := cs.foldl (fun _ c => isWordChar c) inWord

theorem endsInWord_concat (inWord : Bool) (cs : List Char) (c : Char) :
    endsInWord inWord (cs ++ [c]) = isWordChar c := by
  simp [endsInWord]

theorem endsInWord_true {cs : List Char} (h : ∀ c ∈ cs, isWordChar c = true) :
    endsInWord true cs = true := by
  induction cs with
  | nil => rfl
  | cons c cs ih =>
    change endsInWord (isWordChar c) cs = true
    rw [h c List.mem_cons_self]
    exact ih fun d hd => h d (List.mem_cons_of_mem _ hd)

/-- Text is passed over if the wanted one stands at no place of it where no word runs into. -/
theorem replaceWhole_append {wanted replacement rest : List Char} {inWord : Bool}
    (passed : List Char)
    (h : ∀ before c behind, passed = before ++ c :: behind → endsInWord inWord before = false →
      ¬ wanted <+: c :: (behind ++ rest)) :
    replaceWhole wanted replacement inWord (passed ++ rest) =
      passed ++ replaceWhole wanted replacement (endsInWord inWord passed) rest := by
  induction passed generalizing inWord with
  | nil => rfl
  | cons c passed ih =>
    have here : (!inWord && wanted.isPrefixOf (c :: (passed ++ rest))) = false := by
      cases inWord with
      | true => rfl
      | false =>
        exact Bool.eq_false_iff.mpr fun start =>
          h [] c passed rfl rfl (List.isPrefixOf_iff_prefix.mp start)
    rw [List.cons_append, replaceWhole, here]
    simp only [Bool.false_eq_true, if_false]
    rw [ih fun before d behind split => h (c :: before) d behind (by rw [split]; rfl)]
    rfl

section

variable {wanted replacement : List Char} (reference : IsReference wanted)

include reference

/-- Another text with brackets is passed over. -/
theorem replaceWhole_other {text rest : List Char} {inWord : Bool} (other : IsBracketed text)
    (differs : wanted ≠ text) :
    replaceWhole wanted replacement inWord (text ++ rest) =
      text ++ replaceWhole wanted replacement false rest := by
  have whole : ¬ wanted <+: text ++ rest := fun start =>
    differs (reference.isBracketed.eq_of_isPrefix other start)
  obtain ⟨run, gap, inner, rfl, ⟨notEmpty, parts⟩, idle, plain⟩ := other
  obtain ⟨c, more, rfl⟩ := List.exists_cons_of_ne_nil notEmpty
  have isWordChars : ∀ d ∈ c :: more, isWordChar d = true := parts
  have pieces : (c :: more ++ (gap ++ '[' :: (inner ++ [']']))) ++ rest =
      [c] ++ (more ++ ((gap ++ ['[']) ++ ((inner ++ [']']) ++ rest))) := by simp
  rw [pieces] at whole ⊢
  rw [replaceWhole_append [c], replaceWhole_append more, replaceWhole_append (gap ++ ['[']),
    replaceWhole_append (inner ++ [']'])]
  · have stop : endsInWord (endsInWord (endsInWord (endsInWord inWord [c]) more) (gap ++ ['[']))
        (inner ++ [']']) = false := endsInWord_concat _ _ _
    rw [stop]
    simp
  · -- A closing bracket comes before the next opening one.
    intro before d behind split _
    rcases List.append_eq_append_iff.mp split with ⟨front, _, same⟩ | ⟨front, rfl, same⟩
    · have none : front = [] := by
        have := congrArg List.length same
        simp at this
        exact List.eq_nil_of_length_eq_zero (by omega)
      subst none
      obtain ⟨rfl, rfl⟩ : ']' = d ∧ [] = behind := by simpa using same
      have noOpening : '[' ∉ ([] : List Char) := by simp
      exact reference.isBracketed.not_isPrefix noOpening
    · rw [← List.cons_append, same, List.append_assoc]
      refine reference.isBracketed.not_isPrefix fun opening => ?_
      exact (plain _ (List.mem_append_right _ opening)).1 rfl
  · -- No reference starts with an idle character or a bracket.
    intro before d behind split _ start
    have part := isWordPart_of_isPrefix reference start
    have mem : d ∈ gap ++ ['['] := by simp [split]
    rcases List.mem_append.mp mem with mem | mem
    · rw [isWordPart_of_isIdle (idle d mem)] at part
      cases part
    · rw [List.mem_singleton.mp mem] at part
      cases part
  · -- The word has started in front of its other characters.
    intro before d behind split noWord
    have first : endsInWord inWord [c] = true := isWordChars c List.mem_cons_self
    rw [first, endsInWord_true fun e he => isWordChars e (by simp [split, he])] at noWord
    cases noWord
  · intro before d behind split _
    obtain ⟨rfl, rfl, rfl⟩ : before = [] ∧ d = c ∧ behind = [] := by
      cases before <;> simp_all
    exact whole

end

/-- The reference itself is replaced. -/
theorem replaceWhole_self {wanted replacement rest : List Char} (reference : IsReference wanted) :
    replaceWhole wanted replacement false (wanted ++ rest) =
      replacement ++ replaceWhole wanted replacement false rest := by
  obtain ⟨name, gap, inner, rfl, ⟨c, more, rfl, _⟩, _⟩ := reference
  have start : (c :: more ++ (gap ++ '[' :: (inner ++ [']']))).isPrefixOf
      (c :: (more ++ (gap ++ '[' :: (inner ++ [']'])) ++ rest)) = true :=
    List.isPrefixOf_iff_prefix.mpr ⟨rest, by simp⟩
  have last : (c :: more ++ (gap ++ '[' :: (inner ++ [']']))).getLast? = some ']' :=
    List.getLast?_eq_some_iff.mpr ⟨c :: more ++ (gap ++ '[' :: inner), by simp⟩
  have stop : (c :: more ++ (gap ++ '[' :: (inner ++ [']']))).getLast?.any isWordChar = false := by
    rw [last]
    rfl
  rw [List.cons_append, List.cons_append, replaceWhole, ← List.cons_append, start, stop]
  simp

/-! ### Replacing the references of a row of pieces -/

namespace Piece

variable {blocked : Bool} {replaced : List (List Char)} {pieces : List Piece}

/-- If an opening bracket is left, it belongs to a reference, and no word runs into that. -/
theorem WellPlaced.opening (h : WellPlaced blocked pieces) (replaced : List (List Char)) :
    '[' ∉ render replaced pieces ∨ ∃ front name gap behind,
      render replaced pieces = front ++ (name ++ (gap ++ '[' :: behind)) ∧ '[' ∉ front ∧
        (∀ c ∈ front.getLast?, isWordPart c = false) ∧ (front = [] → blocked = false) ∧
        IsWord name ∧ ∀ c ∈ gap, isIdle c = true := by
  induction pieces generalizing blocked with
  | nil => exact .inl (by simp [render])
  | cons piece pieces ih =>
    cases piece with
    | plain c =>
      obtain ⟨noOpening, others⟩ := h
      rcases ih others with none | ⟨front, name, gap, behind, split, none, last, first, found⟩
      · exact .inl (by simpa [render, chars, noOpening.symm] using none)
      · refine .inr ⟨c :: front, name, gap, behind, by simpa [render, chars] using split, ?_, ?_,
          by simp, found⟩
        · simpa [noOpening.symm] using none
        · intro d hd
          cases front with
          | nil =>
            obtain rfl : c = d := by simpa using hd
            exact first rfl
          | cons e front => exact last d (by simpa using hd)
    | reference text value =>
      obtain ⟨free, ⟨name, gap, inner, rfl, word, idle, _⟩, noOpening, others⟩ := h
      by_cases done : name ++ (gap ++ '[' :: (inner ++ [']'])) ∈ replaced
      · rcases ih others with none | ⟨front, name', gap', behind, split, none, last, first, found⟩
        · exact .inl (by simpa [render, chars, done, noOpening] using none)
        · have notEmpty : front ≠ [] := fun empty => by cases first empty
          refine .inr ⟨value ++ front, name', gap', behind, ?_, by simp [noOpening, none], ?_,
            fun empty => absurd (List.append_eq_nil_iff.mp empty).2 notEmpty, found⟩
          · simpa [render, chars, done] using split
          · intro d hd
            refine last d ?_
            rwa [List.getLast?_append_of_ne_nil _ notEmpty] at hd
      · exact .inr ⟨[], name, gap, inner ++ ']' :: render replaced pieces,
          by simp [render, chars, done], by simp, by simp, fun _ => free, word, idle⟩

/-- A reference does not start in front of pieces that nothing runs into. -/
theorem WellPlaced.not_isPrefix {wanted : List Char} (h : WellPlaced blocked pieces)
    (reference : IsReference wanted) {front : List Char} (notEmpty : front ≠ [])
    (noOpening : '[' ∉ front)
    (last : blocked = false → ∀ c ∈ front.getLast?, isWordPart c = false) :
    ¬ wanted <+: front ++ render replaced pieces := by
  rcases h.opening replaced with
    none | ⟨more, name, gap, behind, split, none, lastMore, first, word, idle⟩
  · exact not_isPrefix_of_noOpening reference (by simp [noOpening, none])
  · rw [split, ← List.append_assoc]
    refine not_isPrefix_of_other reference (by simp [notEmpty]) (by simp [noOpening, none])
      (fun c hc => ?_) word.isRun idle
    cases more with
    | nil => exact last (first rfl) c (by simpa using hc)
    | cons d more =>
      refine lastMore c ?_
      rwa [List.getLast?_append_of_ne_nil _ (by simp)] at hc

/-- Replacing one more reference. -/
theorem replaceWhole_render {wanted replacement : List Char} {inWord : Bool}
    (replaced : List (List Char)) (reference : IsReference wanted)
    (placed : WellPlaced blocked pieces)
    (free : blocked = false → inWord = false)
    (agrees : ∀ value, .reference wanted value ∈ pieces → value = replacement) :
    replaceWhole wanted replacement inWord (render replaced pieces) =
      render (wanted :: replaced) pieces := by
  induction pieces generalizing blocked inWord with
  | nil => simp [render, replaceWhole]
  | cons piece pieces ih =>
    have agreesOthers : ∀ value, .reference wanted value ∈ pieces → value = replacement :=
      fun value mem => agrees value (List.mem_cons_of_mem _ mem)
    rw [render, List.flatMap_cons, render, List.flatMap_cons]
    cases piece with
    | plain c =>
      obtain ⟨noOpening, others⟩ := placed
      rw [chars, chars, replaceWhole_append]
      · exact congrArg _ (ih others id agreesOthers)
      · intro before d behind split _
        obtain ⟨rfl, rfl, rfl⟩ : before = [] ∧ d = c ∧ behind = [] := by
          cases before <;> simp_all
        have notEmpty : [d] ≠ [] := by simp
        exact others.not_isPrefix reference notEmpty (by simpa using noOpening.symm)
          (by simp [isWordChar, isWordPart])
    | reference text value =>
      obtain ⟨notBlocked, isReference, noOpening, others⟩ := placed
      by_cases done : text ∈ replaced
      · rw [chars, if_pos done, chars, if_pos (List.mem_cons_of_mem _ done), replaceWhole_append]
        · exact congrArg _ (ih others (by simp) agreesOthers)
        · intro before d behind split _
          have noOpening : '[' ∉ d :: behind := fun h => noOpening (split ▸ by simp [h])
          have notEmpty : d :: behind ≠ [] := by simp
          exact others.not_isPrefix reference notEmpty noOpening (by simp)
      by_cases same : text = wanted
      · subst same
        obtain rfl := agrees value List.mem_cons_self
        rw [chars, if_neg done, chars, if_pos List.mem_cons_self, free notBlocked,
          replaceWhole_self reference]
        exact congrArg _ (ih others (by simp) agreesOthers)
      · rw [chars, if_neg done, chars, if_neg (by simp [same, done]),
          replaceWhole_other reference isReference.isBracketed (Ne.symm same)]
        exact congrArg _ (ih others (by simp) agreesOthers)

/-- The characters of a piece when all references have been replaced. -/
def final : Piece → List Char
  | plain c => [c]
  | reference _ value => value

theorem render_eq_final (h : ∀ text value, .reference text value ∈ pieces → text ∈ replaced) :
    render replaced pieces = pieces.flatMap final := by
  unfold render
  refine List.flatMap_congr fun piece mem => ?_
  cases piece with
  | plain c => rfl
  | reference text value => rw [chars, if_pos (h text value mem), final]

end Piece

/-! ### Replacing in segments -/

/-- A segment with some references replaced, one after the other. -/
def Segment.replace (references : List (String × Value)) (segment : Segment) : Segment :=
  references.foldl (fun segment r => segment.substitute r.1 r.2) segment

theorem foldl_map_substitute (references : List (String × Value)) (segments : List Segment) :
    references.foldl (fun segments r => segments.map (Segment.substitute r.1 r.2)) segments =
      segments.map (Segment.replace references) := by
  induction references generalizing segments with
  | nil => exact (List.map_id segments).symm
  | cons r references ih =>
    rw [List.foldl_cons, ih, List.map_map]
    rfl

/-- A quoted segment stays as it is. -/
theorem Segment.replace_quoted (references : List (String × Value)) (chars : List Char) :
    Segment.replace references ⟨true, chars⟩ = ⟨true, chars⟩ := by
  induction references with
  | nil => rfl
  | cons r references ih => exact ih

open Piece in
/-- The references of a segment outside quotes, one after the other. -/
theorem Segment.replace_render {references : List (String × Value)} {pieces : List Piece}
    (placed : WellPlaced false pieces)
    (isReference : ∀ r ∈ references, IsReference r.1.toList)
    (agrees : ∀ r ∈ references, ∀ value, .reference r.1.toList value ∈ pieces →
      value = r.2.toText.toList) (replaced : List (List Char)) :
    Segment.replace references ⟨false, render replaced pieces⟩ =
      ⟨false, render ((references.map (·.1.toList)).reverse ++ replaced) pieces⟩ := by
  induction references generalizing replaced with
  | nil => rfl
  | cons r references ih =>
    have first : Segment.substitute r.1 r.2 ⟨false, render replaced pieces⟩ =
        ⟨false, render (r.1.toList :: replaced) pieces⟩ := by
      have whole := replaceWhole_render replaced (isReference r List.mem_cons_self) placed
        (fun _ => rfl) (agrees r List.mem_cons_self)
      simp only [Segment.substitute, Bool.false_eq_true, if_false, whole]
    rw [Segment.replace, List.foldl_cons, first]
    refine (ih (fun r mem => isReference r (List.mem_cons_of_mem _ mem))
      (fun r mem => agrees r (List.mem_cons_of_mem _ mem)) _).trans ?_
    simp

/-- When all references of a segment are among those that are replaced, none is left. -/
theorem Segment.replace_all {references : List (String × Value)} {pieces : List Piece}
    (placed : Piece.WellPlaced false pieces)
    (isReference : ∀ r ∈ references, IsReference r.1.toList)
    (agrees : ∀ r ∈ references, ∀ value, .reference r.1.toList value ∈ pieces →
      value = r.2.toText.toList)
    (all : ∀ text value, .reference text value ∈ pieces → ∃ r ∈ references, r.1.toList = text) :
    Segment.replace references ⟨false, Piece.render [] pieces⟩ =
      ⟨false, pieces.flatMap Piece.final⟩ := by
  rw [Segment.replace_render placed isReference agrees, Piece.render_eq_final]
  intro text value mem
  obtain ⟨r, hr, rfl⟩ := all text value mem
  simpa using ⟨r.1, ⟨r.2, hr⟩, rfl⟩

end Quarterly.Formula
