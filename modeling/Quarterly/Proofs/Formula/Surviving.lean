import Quarterly.Proofs.Formula.Segments

/-!
# References that survive substitution

Only references that an evaluation looks up are replaced in the formula of its trace. A reference
that it never came to, in the body of a lambda that is not called, stays where it is
(`hasReference_of_not_lookedUp`). So does a reference directly behind digits, which hide it from the
search (`hasReference_of_behindDigits`): the value of a binding can end where the body starts. No
other reference is left where nothing runs into references (`hasReference_eq_false_of_lookedUp`).
-/

namespace Quarterly.Formula

open Lexeme (isIdle isWordStart isWordPart Spelled)

variable {isFunction : String → Bool} {apart : Prop} {position : Nat} {formula cs : List Char}
  {tokens : List Token}

/-! ### References among tokens -/

theorem mem_of_mem_groups {g : Group} (h : g ∈ groups tokens) :
    g.name ∈ tokens ∧ g.name.kind = .identifier := by
  induction tokens using groups.induct with
  | case1 name opening inside closing rest isGroup ih =>
    rw [groups, if_pos isGroup] at h
    rcases List.mem_cons.mp h with rfl | h
    · exact ⟨by simp, isGroup.1⟩
    · obtain ⟨mem, kind⟩ := ih h
      exact ⟨by simp [mem], kind⟩
  | case2 name opening inside closing rest noGroup ih =>
    rw [groups, if_neg noGroup] at h
    obtain ⟨mem, kind⟩ := ih h
    exact ⟨List.mem_cons_of_mem _ mem, kind⟩
  | case3 tokens short =>
    rw [groups.eq_2 _ short] at h
    cases h

theorem GroupAt.of_cons {token : Token} {p : Nat} {g : Group}
    (h : GroupAt (token :: tokens).toArray (p + 1) g) : GroupAt tokens.toArray p g where
  name := by simpa using h.name
  kind := h.kind
  opening := by simpa [kindAt] using h.opening
  inside := by simpa using h.inside
  closing := by simpa using h.closing
  closes := h.closes
  indexed := h.indexed

/-- References do not overlap, so each one of the tokens is among their references. -/
theorem mem_groups_of_groupAt {p : Nat} {g : Group} (h : GroupAt tokens.toArray p g) :
    g ∈ groups tokens := by
  induction tokens using groups.induct generalizing p with
  | case1 name opening inside closing rest isGroup ih =>
    obtain ⟨isName, opens, closes⟩ := isGroup
    rw [groups_group (g := ⟨name, inside, closing⟩) isName opens closes]
    rcases p with _ | _ | _ | _ | p
    · obtain rfl : name = g.name := by simpa using h.name
      obtain rfl : inside = g.inside := by simpa using h.inside
      obtain rfl : closing = g.closing := by simpa using h.closing
      exact List.mem_cons_self
    · obtain rfl : opening = g.name := by simpa using h.name
      rw [h.kind] at opens
      cases opens
    · have kind : closing.kind = .leftBracket := by simpa [kindAt] using h.opening
      rw [closes] at kind
      cases kind
    · obtain rfl : closing = g.name := by simpa using h.name
      rw [h.kind] at closes
      cases closes
    · exact List.mem_cons_of_mem _ (ih h.of_cons.of_cons.of_cons.of_cons)
  | case2 name opening inside closing rest noGroup ih =>
    rw [groups, if_neg noGroup]
    cases p with
    | zero =>
      obtain rfl : name = g.name := by simpa using h.name
      obtain rfl : closing = g.closing := by simpa using h.closing
      exact absurd ⟨h.kind, by simpa [kindAt] using h.opening, h.closes⟩ noGroup
    | succ p => exact ih h.of_cons
  | case3 tokens short =>
    have long : 3 < tokens.length := by
      have inside := (Array.getElem?_eq_some_iff.mp h.closing).1
      rw [List.size_toArray] at inside
      omega
    rcases tokens with _ | ⟨_, _ | ⟨_, _ | ⟨_, _ | ⟨_, rest⟩⟩⟩⟩
    case cons.cons.cons.cons => exact absurd rfl (short _ _ _ _ _)
    all_goals simp at long

/-- No function has the name of a reference. -/
theorem noFunction_of_mem_tokenize {text : String} {token : Token}
    (mem : token ∈ tokenize isFunction text) (kind : token.kind = .identifier) :
    isFunction (token.text.map Char.toUpper) = false := by
  obtain ⟨extents, covers⟩ := covers_scan isFunction [] text.toList
  have inScan : token ∈ Token.scan isFunction 0 text.toList := mem
  have tokens_eq : Token.scan isFunction 0 text.toList = _ := covers.tokens_eq
  rw [tokens_eq] at inScan
  rcases List.mem_append.mp inScan with mem | atEnd
  · obtain ⟨e, he, rfl⟩ := List.mem_map.mp mem
    have spelled := (covers.form e he).spelled
    rw [kind] at spelled
    exact spelled.names.noFunction
  · rw [List.mem_singleton.mp atEnd] at kind
    cases kind

/-! ### A reference in its segment -/

theorem Segment.split_eq_cons (outside cs : List Char) :
    ∃ more segments, Segment.split outside cs = ⟨false, outside.reverse ++ more⟩ :: segments := by
  induction outside, cs using Segment.split.induct with
  | case1 outside => exact ⟨[], [], by rw [Segment.split, List.append_nil]⟩
  | case2 outside c rest isQuote body ih =>
    rw [Segment.split, if_pos isQuote]
    exact ⟨[], _, by rw [List.append_nil]⟩
  | case3 outside c rest noQuote ih =>
    obtain ⟨more, segments, split⟩ := ih
    rw [Segment.split, if_neg noQuote, split]
    exact ⟨c :: more, segments, by simp⟩

/-- What has been read outside quotes stands directly in front of a place, behind a quote or from
the start of the formula on. -/
def InFront (formula : List Char) (position : Nat) (before : List Char) : Prop :=
  ∃ quoted, formula.take position = quoted ++ before ∧
    ∀ c ∈ quoted.getLast?, c = '"' ∨ c = '\''

theorem InFront.append {before xs ys : List Char} (h : InFront formula position before)
    (here : formula.drop position = xs ++ ys) :
    InFront formula (position + xs.length) (before ++ xs) := by
  obtain ⟨quoted, split, quote⟩ := h
  exact ⟨quoted, by rw [List.take_add, here, List.take_left, split, List.append_assoc], quote⟩

/-- Digits in front of a place have been read with what has been read outside quotes, and what is
in front of them. -/
theorem InFront.exists_digits {before : List Char} (h : InFront formula position before) {p : Nat}
    (le : p ≤ position) (free : runsInto formula p = false)
    (digits : ∀ c ∈ (formula.take position).drop p, c.isDigit = true) :
    ∃ front, before = front ++ (formula.take position).drop p ∧
      ∀ c ∈ front.getLast?, isWordPart c = false ∧ c ≠ ']' := by
  obtain ⟨quoted, split, quote⟩ := h
  have whole : formula.take p ++ (formula.take position).drop p = quoted ++ before := by
    have taken : (formula.take position).take p = formula.take p := by
      rw [List.take_take, Nat.min_eq_left le]
    rw [← taken, List.take_append_drop, split]
  rcases List.append_eq_append_iff.mp whole with ⟨run, rfl, same⟩ | ⟨front, same, rfl⟩
  · rcases List.eq_nil_or_concat run with rfl | ⟨run, d, rfl⟩
    · exact ⟨[], by simpa using same.symm, by simp⟩
    · -- A quote is no digit.
      have digit := digits d (same ▸ by simp)
      rcases quote d (by simp) with rfl | rfl <;> cases digit
  · refine ⟨front, rfl, fun c hc => ?_⟩
    have last : (formula.take p).getLast? = some c := by
      rw [same, List.getLast?_append, hc]
      rfl
    rw [runsInto, last, Option.any_some, Bool.or_eq_false_iff] at free
    exact ⟨free.1, by simpa using free.2⟩

/-- No reference is left at the end of a text. -/
theorem Stretches.groups_of_nil (h : Stretches isFunction apart position [] tokens) :
    groups tokens = [] := by
  generalize none : ([] : List Char) = cs at h
  cases h with
  | finish _ => simp [groups]
  | token _ spelled => simp [spelled.ne_nil] at none
  | group => simp [Group.chars] at none

/-- Each reference of the tokens stands in a segment outside quotes. -/
theorem Stretches.exists_segment (h : Stretches isFunction apart position cs tokens)
    (here : formula.drop position = cs) {outside : List Char}
    (inFront : InFront formula position outside.reverse) {g : Group} (mem : g ∈ groups tokens) :
    ∃ before behind, InFront formula g.name.position before ∧
      ⟨false, before ++ ((g.slice formula).toList ++ behind)⟩ ∈ Segment.split outside cs := by
  induction h generalizing outside with
  | finish _ => simp [groups] at mem
  | @token position idles own rest kind text tokens idle spelled noOpening noClosing _ others ih =>
    rw [groups_cons fun _ => others.firstKind_ne] at mem
    have nextOwn : formula.drop (position + idles.length) = own ++ rest := by
      rw [← List.drop_drop, here, List.drop_left]
    rw [Segment.split_append (plain_of_isIdle idle).1]
    by_cases string : kind = .string
    · subst string
      rcases spelled.endsQuoted with rfl | ⟨body, quote, rfl, isQuote⟩
      · rw [others.groups_of_nil] at mem
        cases mem
      have nothing : InFront formula (position + idles.length + (body ++ [quote]).length)
          ([] : List Char).reverse := by
        refine ⟨_, by rw [List.reverse_nil, List.append_nil], fun c hc => ?_⟩
        rw [List.take_add, nextOwn, List.take_left, ← List.append_assoc, List.getLast?_concat] at hc
        obtain rfl : quote = c := by simpa using hc
        exact isQuote
      obtain ⟨before, behind, atFront, found⟩ := ih (drop_stretch here) nothing mem
      rw [Segment.split_string _ spelled]
      exact ⟨before, behind, atFront, List.mem_cons_of_mem _ (List.mem_cons_of_mem _ found)⟩
    · have plain : ∀ c ∈ own, c ≠ '"' ∧ c ≠ '\'' := fun c hc =>
        quote_of_notMem (spelled.notMem string noOpening noClosing c hc)
      rw [Segment.split_append plain]
      refine ih (drop_stretch here) ?_ mem
      simpa using (inFront.append here).append nextOwn
  | @group position idles name gap left index right rest tokens g' opening idle written kind opens
      closes start stop _ others ih =>
    have nextChars : formula.drop (position + idles.length) =
        Group.chars name gap left index right ++ rest := by
      rw [← List.drop_drop, here, List.drop_left]
    rw [Segment.split_append (plain_of_isIdle idle).1, Segment.split_append written.quote]
    have idlesFront := inFront.append here
    rw [groups_group kind opens closes] at mem
    rcases List.mem_cons.mp mem with rfl | mem
    · obtain ⟨more, segments, split⟩ := Segment.split_eq_cons
        ((Group.chars name gap left index right).reverse ++ (idles.reverse ++ outside)) rest
      refine ⟨outside.reverse ++ idles, more, start ▸ idlesFront, ?_⟩
      rw [split, Group.slice_eq here start stop, String.toList_ofList]
      simp
    · refine ih (drop_stretch here) ?_ mem
      simpa using idlesFront.append nextChars

/-! ### Digits in front of a reference -/

theorem isWordPart_of_isDigit {c : Char} (h : c.isDigit = true) : isWordPart c = true := by
  simp [isWordPart, Char.isAlphanum, h]

theorem isWordStart_of_isDigit {c : Char} (h : c.isDigit = true) : isWordStart c = false := by
  revert h
  refine of_ascii (p := fun c => c.isDigit = true → isWordStart c = false) (by decide) ?_ c
  intro c large digit
  simp only [Char.isDigit, Bool.and_eq_true, decide_eq_true_eq] at digit
  have last : c.val.toNat ≤ '9'.val.toNat := UInt32.le_iff_toNat_le.mp digit.2
  exact absurd (Nat.le_trans large last) (by decide)

theorem IsReference.append_digits {digits text : List Char} (h : IsReference text)
    (digit : ∀ d ∈ digits, d.isDigit = true) : IsBracketed (digits ++ text) := by
  obtain ⟨name, gap, inner, rfl, word, idle, plain⟩ := h
  refine ⟨digits ++ name, gap, inner, by simp, ⟨?_, fun d hd => ?_⟩, idle, plain⟩
  · exact List.append_ne_nil_of_right_ne_nil _ word.isRun.1
  · exact (List.mem_append.mp hd).elim (fun hd => isWordPart_of_isDigit (digit d hd))
      (word.isWordPart d)

theorem IsReference.ne_append_digits {wanted digits text : List Char} (h : IsReference wanted)
    (notEmpty : digits ≠ []) (digit : ∀ d ∈ digits, d.isDigit = true) :
    wanted ≠ digits ++ text := by
  obtain ⟨name, gap, inner, rfl, ⟨c, more, rfl, start, _⟩, _⟩ := h
  obtain ⟨d, digits, rfl⟩ := List.exists_cons_of_ne_nil notEmpty
  intro same
  obtain ⟨rfl, _⟩ := List.cons.inj same
  rw [isWordStart_of_isDigit (digit c List.mem_cons_self)] at start
  cases start

/-! ### Replacing around a reference -/

/-- A reference has one opening bracket, and it ends with the closing one. -/
theorem IsReference.opening_notMem {wanted front more : List Char} (reference : IsReference wanted)
    (split : wanted = front ++ more) (opening : '[' ∈ front) : '[' ∉ more := by
  obtain ⟨name, gap, inner, rfl, word, idle, plain⟩ := reference
  have whole : name ++ (gap ++ '[' :: (inner ++ [']'])) =
      (name ++ gap) ++ '[' :: (inner ++ [']']) := by simp
  have noInner : '[' ∉ inner ++ [']'] := by
    simpa using fun mem => (plain _ mem).1 rfl
  have one : List.count '[' (front ++ more) = 1 := by
    rw [← split, whole, List.count_append, List.count_cons_self,
      List.count_eq_zero.mpr (opening_notMem_front word.isRun idle), List.count_eq_zero.mpr noInner]
  rw [List.count_append] at one
  have := List.count_pos_iff.mpr opening
  exact List.count_eq_zero.mp (by omega)

/-- A reference that is found in front of a text with brackets, which nothing runs into, ends before
that. -/
theorem IsReference.exists_of_isPrefix {wanted text front behind : List Char}
    (reference : IsReference wanted) (bracketed : IsBracketed text) (notEmpty : front ≠ [])
    (free : ∀ c ∈ front.getLast?, isWordPart c = false ∧ c ≠ ']')
    (start : wanted <+: front ++ (text ++ behind)) :
    ∃ more, more ≠ [] ∧ front = wanted ++ more := by
  by_cases opening : '[' ∈ front
  · obtain ⟨rest, split⟩ := start
    obtain ⟨xs, last⟩ : ∃ xs, wanted = xs ++ [']'] := by
      obtain ⟨name, gap, inner, rfl, _⟩ := reference
      exact ⟨name ++ (gap ++ '[' :: inner), by simp⟩
    rcases List.append_eq_append_iff.mp split with ⟨more, same, _⟩ | ⟨beyond, same, behind_eq⟩
    · refine ⟨more, ?_, same⟩
      rintro rfl
      exact (free ']' (by simp [same, last])).2 rfl
    · -- What reaches over the end has no opening bracket, but a closing one at its end.
      have noOpening := reference.opening_notMem same opening
      rcases List.eq_nil_or_concat beyond with rfl | ⟨ys, c, rfl⟩
      · rw [List.append_nil] at same
        exact absurd rfl (free ']' (by simp [← same, last])).2
      · rw [List.concat_eq_append] at same behind_eq noOpening
        obtain rfl : ']' = c := by
          have := congrArg List.getLast? (last.symm.trans same)
          simpa using this
        have noOpening' : '[' ∉ ys := fun h => noOpening (List.mem_append_left _ h)
        have notHere : ¬ text <+: ys ++ ']' :: rest :=
          bracketed.not_isPrefix noOpening'
        exact absurd ⟨behind, by simpa using behind_eq⟩ notHere
  · obtain ⟨run, gap, inner, rfl, isRun, idle, _⟩ := bracketed
    have notHere : ¬ wanted <+: front ++ (run ++ (gap ++ '[' :: (inner ++ ']' :: behind))) :=
      not_isPrefix_of_other reference notEmpty opening (fun c hc => (free c hc).1) isRun idle
    exact absurd start (by simpa using notHere)

/-- Replacing a reference keeps another text with brackets that nothing runs into, and what stands
directly in front of it. -/
theorem replaceWhole_keeps {wanted text : List Char} (reference : IsReference wanted)
    (bracketed : IsBracketed text) (differs : wanted ≠ text) (replacement : List Char)
    {front : List Char} (free : ∀ c ∈ front.getLast?, isWordPart c = false ∧ c ≠ ']')
    (inWord : Bool) (behind : List Char) :
    ∃ front' behind', replaceWhole wanted replacement inWord (front ++ (text ++ behind)) =
        front' ++ (text ++ behind') ∧ front'.getLast? = front.getLast? := by
  by_cases none : front = []
  · subst none
    exact ⟨[], _, replaceWhole_other reference bracketed differs, rfl⟩
  generalize whole : front ++ (text ++ behind) = cs
  induction inWord, cs using replaceWhole.induct wanted generalizing front with
  | case1 inWord => simp [none] at whole
  | case2 inWord c rest here ih =>
    -- The other reference stands here; it ends in front of what stands before the kept one.
    have start : wanted <+: front ++ (text ++ behind) := by
      rw [whole]
      exact List.isPrefixOf_iff_prefix.mp (Bool.and_eq_true_iff.mp here).2
    obtain ⟨more, notEmpty, rfl⟩ := reference.exists_of_isPrefix bracketed none free start
    have last : (wanted ++ more).getLast? = more.getLast? :=
      List.getLast?_append_of_ne_nil _ notEmpty
    rw [last] at free ⊢
    obtain ⟨d, others, rfl⟩ : ∃ d others, wanted = d :: others := by
      obtain ⟨_, _, _, rfl, ⟨d, _, rfl, _⟩, _⟩ := reference
      exact ⟨d, _, rfl⟩
    rw [List.append_assoc, List.cons_append] at whole
    obtain ⟨rfl, rfl⟩ := List.cons.inj whole
    have dropped : (others ++ (more ++ (text ++ behind))).drop ((d :: others).length - 1) =
        more ++ (text ++ behind) := List.drop_left
    rw [dropped] at ih
    obtain ⟨front', behind', kept, same⟩ := ih free notEmpty rfl
    have notEmpty' : front' ≠ [] := by
      rintro rfl
      exact notEmpty (List.getLast?_eq_none_iff.mp same.symm)
    rw [replaceWhole, if_pos here, dropped, kept]
    exact ⟨replacement ++ front', behind', by simp,
      (List.getLast?_append_of_ne_nil _ notEmpty').trans same⟩
  | case3 inWord c rest notHere ih =>
    obtain ⟨d, front, rfl⟩ := List.exists_cons_of_ne_nil none
    obtain ⟨rfl, rfl⟩ := List.cons.inj whole
    rw [replaceWhole, if_neg notHere]
    by_cases last : front = []
    · subst last
      exact ⟨[d], _, congrArg (d :: ·) (replaceWhole_other reference bracketed differs), rfl⟩
    · rw [List.getLast?_cons, List.getLast?_eq_some_getLast last] at free ⊢
      obtain ⟨front', behind', kept, same⟩ :=
        ih (by rwa [List.getLast?_eq_some_getLast last]) last rfl
      refine ⟨d :: front', behind', by rw [kept]; rfl, ?_⟩
      rw [List.getLast?_cons, same, List.getLast?_eq_some_getLast last]

/-- Replacing other references one after the other. -/
theorem replaceEach_keeps {references : List (String × Value)} {text : List Char}
    (areReferences : ∀ r ∈ references, IsReference r.1.toList) (bracketed : IsBracketed text)
    (differ : ∀ r ∈ references, r.1.toList ≠ text) {front : List Char}
    (free : ∀ c ∈ front.getLast?, isWordPart c = false ∧ c ≠ ']') (behind : List Char) :
    ∃ front' behind', replaceEach references (front ++ (text ++ behind)) =
        front' ++ (text ++ behind') ∧ front'.getLast? = front.getLast? := by
  induction references generalizing front behind with
  | nil => exact ⟨front, behind, rfl, rfl⟩
  | cons r references ih =>
    obtain ⟨front', behind', kept, same⟩ := replaceWhole_keeps
      (areReferences r List.mem_cons_self) bracketed (differ r List.mem_cons_self)
      r.2.toText.toList free false behind
    obtain ⟨front'', behind'', kept', same'⟩ :=
      ih (fun r hr => areReferences r (List.mem_cons_of_mem _ hr))
        (fun r hr => differ r (List.mem_cons_of_mem _ hr)) (same ▸ free) behind'
    refine ⟨front'', behind'', ?_, same'.trans same⟩
    rw [replaceEach, List.foldl_cons, kept]
    exact kept'

/-! ### What is looked up -/

/-- Every reference with brackets that is noted in a journal is one of the tokens. -/
def Journal.Known (c : Context) (j : Journal) : Prop :=
  ∀ s ∈ j.bracketed, ∃ g ∈ groups c.tokens.toList, s = g.substitution c

/-- Readings look up references of the tokens only. -/
def knownAccount {c : Context} (tokenized : c.IsTokenized) (tracing : c.tracing = true) :
    Account c fun _ => True where
  Admits _ := True
  leads _ i _ j := i.Known c → j.Known c
  refl _ _ h := h
  trans first second h := second (first h)
  passed _ _ _ _ h := h
  referred {p g} j _ here h s mem := by
    rw [Journal.bracketed_lookedUp tracing] at mem
    rcases List.mem_append.mp mem with mem | mem
    · exact h s mem
    · exact ⟨g, mem_groups_of_groupAt here, List.mem_singleton.mp (List.mem_of_mem_filter mem)⟩
  skipped _ _ _ h := h
  named {p word} j _ here h s mem := by
    rw [Journal.bracketed_lookedUp tracing] at mem
    rcases List.mem_append.mp mem with mem | mem
    · exact h s mem
    · obtain ⟨mem, isBracketed⟩ := List.mem_filter.mp mem
      rw [List.mem_singleton.mp mem] at isBracketed
      exact absurd (List.contains_iff_mem.mp isBracketed)
        (tokenized.opening_notMem_name p word here)
  stepped _ j _ _ h := by
    unfold Journal.Known
    rwa [Journal.bracketed_stepped]
  noticed _ _ _ _ h := h
  called _ _ along h := along h
  lambda _ := trivial
  made _ _ := trivial

theorem known_of_evaluate {c : Context} (tokenized : c.IsTokenized) (tracing : c.tracing = true)
    {v : Value} (h : (evaluate c .live []).outcome = .ok v) :
    (evaluate c .live []).journal.Known c := by
  obtain ⟨_, along, _⟩ := ((knownAccount tokenized tracing).evaluate .live trivial).1 v h
  exact along fun s mem => by simp [Journal.bracketed] at mem

/-! ### The formula of a trace -/

/-- No opening bracket is left where all references of some pieces are replaced. -/
theorem Piece.WellPlaced.opening_notMem {blocked : Bool} {pieces : List Piece}
    (h : WellPlaced blocked pieces) : '[' ∉ pieces.flatMap Piece.final := by
  induction pieces generalizing blocked with
  | nil => simp
  | cons piece pieces ih =>
    rw [List.flatMap_cons, List.mem_append, not_or]
    cases piece with
    | plain c => exact ⟨fun same => h.1 (List.mem_singleton.mp same).symm, ih h.2⟩
    | reference text value => exact ⟨h.2.2.1, ih h.2.2.2⟩

/-- Segments outside quotes and strings still take turns when references have been replaced. -/
theorem alternate_replaced (formula : List Char) (substitutions : List Substitution) : Alternate
    ((Segment.split [] formula).map (Segment.replace (replacements substitutions))) := by
  refine (alternate_split (by simp) formula).map_replace fun r hr d hd => ?_
  obtain ⟨s, mem, _, value⟩ := exists_of_mem_replacements hr
  rw [← value] at hd
  exact quote_of_notMem (notMem_lookupValue s.found d hd)

/-- A reference is among those that were looked up. -/
def LookedUp (substitutions : List Substitution) (reference : String) : Prop :=
  ∃ s ∈ substitutions, s.reference = reference

instance (substitutions : List Substitution) (reference : String) :
    Decidable (LookedUp substitutions reference) :=
  inferInstanceAs (Decidable (∃ s ∈ substitutions, _))

/-- Digits that nothing runs into stand directly in front of a reference. -/
def Group.BehindDigits (formula : List Char) (g : Group) : Prop :=
  ∃ p, runsInto formula p = false ∧ (formula.take g.name.position).drop p ≠ [] ∧
    ∀ d ∈ (formula.take g.name.position).drop p, d.isDigit = true

section

variable {c : Context} {substitutions : List Substitution}
  (stretches : Stretches isFunctionName apart 0 c.formula c.tokens.toList)
  (known : ∀ s ∈ substitutions.filter Substitution.isBracketed,
    ∃ g ∈ groups c.tokens.toList, s = g.substitution c)

include stretches known

/-- A reference behind digits, or behind no digits if it was not looked up, is left, if nothing runs
into the digits. -/
theorem hasReference_of_digits (tokenized : c.IsTokenized) {g : Group}
    (mem : g ∈ groups c.tokens.toList) {p : Nat} (le : p ≤ g.name.position)
    (free : runsInto c.formula p = false)
    (digit : ∀ d ∈ (c.formula.take g.name.position).drop p, d.isDigit = true)
    (never : (c.formula.take g.name.position).drop p = [] →
      ¬ LookedUp substitutions (g.slice c.formula)) :
    hasReference (tokenize isFunctionName (substituted (String.ofList c.formula) substitutions)) =
      true := by
  have atStart : InFront c.formula 0 [].reverse := ⟨[], by simp, by simp⟩
  obtain ⟨before, behind, inFront, found⟩ := stretches.exists_segment List.drop_zero atStart mem
  obtain ⟨front, rfl, freeFront⟩ := inFront.exists_digits le free digit
  generalize (c.formula.take g.name.position).drop p = digits at digit never found
  -- References are replaced, and the digits and this one keep their place.
  have isReference : ∀ g ∈ groups c.tokens.toList, IsReference (g.slice c.formula).toList :=
    fun _ mem => stretches.isReference_slice List.drop_zero mem
  have differ : ∀ r ∈ replacements substitutions,
      IsReference r.1.toList ∧ r.1.toList ≠ digits ++ (g.slice c.formula).toList := by
    intro r hr
    obtain ⟨s, noted, named, _⟩ := exists_of_mem_replacements hr
    obtain ⟨g', mem', rfl⟩ := known s noted
    rw [← named]
    refine ⟨isReference g' mem', ?_⟩
    by_cases none : digits = []
    · subst none
      exact fun same => never rfl ⟨_, List.mem_of_mem_filter noted, String.toList_inj.mp same⟩
    · exact (isReference g' mem').ne_append_digits none digit
  obtain ⟨front', rest, kept, last⟩ := replaceEach_keeps (fun r hr => (differ r hr).1)
    ((isReference g mem).append_digits digit) (fun r hr => (differ r hr).2) freeFront behind
  have replaced := List.mem_map_of_mem (f := Segment.replace (replacements substitutions)) found
  rw [List.append_assoc, ← List.append_assoc digits, Segment.replace_outside, kept] at replaced
  -- Its name starts a token there.
  obtain ⟨name, gap, left, index, right, written, slice⟩ :=
    stretches.written_of_mem List.drop_zero mem
  rw [slice, String.toList_ofList, Group.chars] at replaced
  obtain ⟨isToken, kind⟩ := mem_of_mem_groups mem
  have noFunction : isFunctionName ((String.ofList name).map Char.toUpper) = false := by
    rw [← written.nameText]
    rw [tokenized] at isToken
    exact noFunction_of_mem_tokenize isToken kind
  have inSegments : ⟨false, (front' ++ digits) ++ (name ++ (gap ++ '[' ::
      (left ++ (index ++ (right ++ ']' :: rest)))))⟩ ∈
      (Segment.split [] c.formula).map (Segment.replace (replacements substitutions)) := by
    simpa using replaced
  have noWord : EndsNoWord (front' ++ digits) := endsNoWord
    (fun d hd => (freeFront d (last ▸ hd)).1) fun d hd => isWordStart_of_isDigit (digit d hd)
  rw [substituted_eq_flatMap, tokenize, String.toList_ofList]
  exact (alternate_replaced _ _).hasReference_of_mem inSegments noWord written.word noFunction
    written.gap 0

/-- A reference that was not looked up is left, if nothing runs into it. -/
theorem hasReference_of_not_lookedUp (tokenized : c.IsTokenized) {g : Group}
    (mem : g ∈ groups c.tokens.toList) (free : g.Free c.formula)
    (never : ¬ LookedUp substitutions (g.slice c.formula)) :
    hasReference (tokenize isFunctionName (substituted (String.ofList c.formula) substitutions)) =
      true := by
  have none : (c.formula.take g.name.position).drop g.name.position = [] :=
    List.drop_eq_nil_of_le (List.length_take_le _ _)
  exact hasReference_of_digits stretches known tokenized mem (Nat.le_refl _) free
    (by simp [none]) fun _ => never

/-- A reference directly behind digits is left, whether it was looked up or not. -/
theorem hasReference_of_behindDigits (tokenized : c.IsTokenized) {g : Group}
    (mem : g ∈ groups c.tokens.toList) (behind : g.BehindDigits c.formula) :
    hasReference (tokenize isFunctionName (substituted (String.ofList c.formula) substitutions)) =
      true := by
  obtain ⟨p, free, notEmpty, digit⟩ := behind
  have le : p ≤ g.name.position := by
    refine Nat.le_of_not_lt fun beyond => notEmpty (List.drop_eq_nil_of_le ?_)
    exact Nat.le_trans (List.length_take_le _ _) (Nat.le_of_lt beyond)
  exact hasReference_of_digits stretches known tokenized mem le free digit
    fun none => absurd none notEmpty

/-- No reference is left where all are looked up and nothing runs into any. -/
theorem hasReference_eq_false_of_lookedUp
    (free : ∀ g ∈ groups c.tokens.toList, g.Free c.formula)
    (all : ∀ g ∈ groups c.tokens.toList, LookedUp substitutions (g.slice c.formula)) :
    hasReference (tokenize isFunctionName (substituted (String.ofList c.formula) substitutions)) =
      false := by
  have noOpening : ∀ g, '[' ∉ Group.valueText c g := fun _ => opening_notMem_lookupValue _
  obtain ⟨pieces, blocks, splits⟩ := stretches.splitsAs List.drop_zero noOpening free false
    fun h => Bool.noConfusion h
  have isReference : ∀ g ∈ groups c.tokens.toList, IsReference (g.slice c.formula).toList :=
    fun _ mem => stretches.isReference_slice List.drop_zero mem
  have allBracketed : ∀ g ∈ groups c.tokens.toList,
      ∃ s ∈ substitutions.filter Substitution.isBracketed, s.reference = g.slice c.formula := by
    intro g mem
    obtain ⟨s, noted, named⟩ := all g mem
    refine ⟨s, List.mem_filter.mpr ⟨noted, List.contains_iff_mem.mpr ?_⟩, named⟩
    rw [named]
    exact (isReference g mem).opening_mem
  have alternate := alternate_replaced c.formula substitutions
  rw [substituted_eq_flatMap, tokenize, String.toList_ofList]
  rw [splits.map_replace known allBracketed isReference
    fun _ mem _ mem' => stretches.valueText_eq List.drop_zero mem mem'] at alternate ⊢
  refine hasReference_eq_false (alternate.kind_ne_leftBracket ?_ 0)
  refine List.forall_mem_map.mpr fun b mem outside => ?_
  exact ((splits.placed_all b mem).placed outside).opening_notMem

end

/-- Of an evaluation that comes back, a reference that was not looked up is left in the formula of
the trace, if nothing runs into it, and so is one that stands directly behind digits; where nothing
runs into any reference and all were looked up, none is left. -/
theorem hasReference_substituted (e : Evaluator) (written : String)
    (tracing : e.settings.collectTrace = true) {v : Value}
    (h : (evaluate (e.context (formulaChars written)) .live []).outcome = .ok v) :
    let c := e.context (formulaChars written)
    let references := groups c.tokens.toList
    ∃ trace, (e.evaluate written).trace = some trace ∧
      ((∃ g ∈ references,
          g.Free c.formula ∧ ¬ LookedUp trace.substitutions (g.slice c.formula) ∨
            g.BehindDigits c.formula) →
        hasReference (tokenize isFunctionName trace.substituted) = true) ∧
      ((∀ g ∈ references, g.Free c.formula ∧ LookedUp trace.substitutions (g.slice c.formula)) →
        hasReference (tokenize isFunctionName trace.substituted) = false) := by
  intro c references
  have tokenized : c.IsTokenized := rfl
  have stretches : Stretches isFunctionName False 0 c.formula c.tokens.toList :=
    tokenized.spans.stretches
      (grouped_of_evaluate (endsOnce_tokenize _ _) (fun impossible => impossible.elim) h)
  obtain ⟨trace, traced, substitutions, formula⟩ := exists_trace tracing written
  have known : ∀ s ∈ trace.substitutions.filter Substitution.isBracketed,
      ∃ g ∈ references, s = g.substitution c := by
    rw [substitutions]
    exact known_of_evaluate tokenized tracing h
  have replaced : trace.substituted = substituted (String.ofList c.formula) trace.substitutions :=
    substitutions ▸ formula
  refine ⟨trace, traced, ?_, fun all => ?_⟩ <;> rw [replaced]
  · rintro ⟨g, mem, ⟨free, never⟩ | behind⟩
    · exact hasReference_of_not_lookedUp stretches known tokenized mem free never
    · exact hasReference_of_behindDigits stretches known tokenized mem behind
  · exact hasReference_eq_false_of_lookedUp stretches known (fun g mem => (all g mem).1)
      fun g mem => (all g mem).2

/-- The value of a binding can end directly in front of the body. -/
example : (tracedQuarters.evaluate "LET(a, 1Sales[Q1])").trace.map (·.substituted) =
    some "LET(a, 1Sales[Q1])" := by decide +kernel

/-- Without `LET` and `LAMBDA`, no reference is left. -/
theorem hasReference_eq_false_of_lacks {e : Evaluator} {written : String}
    (tracing : e.settings.collectTrace = true)
    (noLet : Lacks (e.context (formulaChars written)).tokens letName)
    (noLambda : Lacks (e.context (formulaChars written)).tokens lambdaName) {v : Value}
    (h : (evaluate (e.context (formulaChars written)) .live []).outcome = .ok v) :
    ∃ trace, (e.evaluate written).trace = some trace ∧
      hasReference (tokenize isFunctionName trace.substituted) = false := by
  let c := e.context (formulaChars written)
  have tokenized : c.IsTokenized := rfl
  have ends : EndsOnce c.tokens := endsOnce_tokenize _ _
  have stretches : Stretches isFunctionName True 0 c.formula c.tokens.toList :=
    tokenized.spans.stretches (grouped_of_evaluate ends (fun _ => noLet.functionAt_ne) h)
  have free := stretches.free List.drop_zero fun runs => Bool.noConfusion runs
  obtain ⟨trace, traced, substitutions, formula⟩ := exists_trace tracing written
  have noted : trace.substitutions.filter Substitution.isBracketed =
      (groups c.tokens.toList).map (·.substitution c) := by
    rw [substitutions]
    exact (bracketed_of_evaluate (tokenized.telling tracing noLambda) ends h).2
  have known : ∀ s ∈ trace.substitutions.filter Substitution.isBracketed,
      ∃ g ∈ groups c.tokens.toList, s = g.substitution c := by
    rw [noted]
    exact List.forall_mem_map.mpr fun g hg => ⟨g, hg, rfl⟩
  have all : ∀ g ∈ groups c.tokens.toList, LookedUp trace.substitutions (g.slice c.formula) := by
    intro g hg
    have mem : g.substitution c ∈ trace.substitutions.filter Substitution.isBracketed :=
      noted ▸ List.mem_map_of_mem hg
    exact ⟨_, List.mem_of_mem_filter mem, rfl⟩
  have replaced : trace.substituted = substituted (String.ofList c.formula) trace.substitutions :=
    substitutions ▸ formula
  exact ⟨trace, traced, replaced ▸ hasReference_eq_false_of_lookedUp stretches known free all⟩

/-- A lambda that is called for each of two values. -/
def calledTwice : String := "MAP({1, 2}, LAMBDA(x, x * Sales[Q1] + Sales[Q2]))"

theorem hasReference_substituted_calledTwice :
    ∃ trace, (tracedQuarters.evaluate calledTwice).trace = some trace ∧
      hasReference (tokenize isFunctionName trace.substituted) = false := by
  obtain ⟨v, h⟩ : ∃ v,
      (evaluate (tracedQuarters.context (formulaChars calledTwice)) .live []).outcome = .ok v :=
    exists_value (by decide +kernel)
  obtain ⟨trace, traced, _, none⟩ := hasReference_substituted tracedQuarters calledTwice rfl h
  obtain ⟨trace', traced', substitutions, _⟩ := exists_trace (e := tracedQuarters) rfl calledTwice
  obtain rfl : trace = trace' := Option.some.inj (traced.symm.trans traced')
  refine ⟨trace, traced, none ?_⟩
  rw [substitutions]
  decide +kernel

/-- A lambda that is not called, since there are no values. -/
def calledNever : String := "MAP(\x7b\x7d, LAMBDA(x, x * Sales[Q1]))"

theorem exists_hasReference_substituted :
    ∃ v trace,
      (evaluate (tracedQuarters.context (formulaChars calledNever)) .live []).outcome = .ok v ∧
      (tracedQuarters.evaluate calledNever).trace = some trace ∧
      trace.substituted = calledNever ∧
      hasReference (tokenize isFunctionName trace.substituted) = true := by
  obtain ⟨v, h⟩ : ∃ v,
      (evaluate (tracedQuarters.context (formulaChars calledNever)) .live []).outcome = .ok v :=
    exists_value (by decide +kernel)
  obtain ⟨trace, traced, _, formula⟩ := exists_trace (e := tracedQuarters) rfl calledNever
  have same : trace.substituted = calledNever := by
    rw [formula]
    decide +kernel
  refine ⟨v, trace, h, traced, same, ?_⟩
  rw [same]
  decide +kernel

end Quarterly.Formula
