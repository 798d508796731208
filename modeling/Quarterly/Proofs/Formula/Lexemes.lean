import Mathlib.Data.List.TakeWhile
import Quarterly.Formula.Token

/-!
# How tokens are written

The first character of a token and what follows it decide which token it is and where it ends.
`Lexeme.Form` says how the tokens of each kind are written, and what must not follow them in the
text, without the reader; the reader takes a token where one stands in such a form, and no other
(`at?_eq_some_iff`). A form depends on the rest of the text by the first character of the rest
alone, so a token can be taken out of its text and put in front of another one.
-/

namespace Quarterly.Formula

/-! ### Where a run of characters stops -/

section

variable {p : Char → Bool} {xs rest : List Char} (inside : ∀ c ∈ xs, p c = true)
  (stop : ∀ c ∈ rest.head?, p c = false)

include inside stop

theorem takeWhile_append_of_stop : (xs ++ rest).takeWhile p = xs := by
  rw [List.takeWhile_append_of_pos inside]
  cases rest with
  | nil => simp
  | cons c rest => simp [stop c rfl]

theorem dropWhile_append_of_stop : (xs ++ rest).dropWhile p = rest := by
  rw [List.dropWhile_append_of_pos inside]
  cases rest with
  | nil => rfl
  | cons c rest => simp [stop c rfl]

end

theorem takeWhile_ne_append {c : Char} {xs : List Char} (h : c ∉ xs) (rest : List Char) :
    (xs ++ c :: rest).takeWhile (· != c) = xs :=
  takeWhile_append_of_stop (fun d hd => by simpa using fun same : d = c => h (same ▸ hd)) (by simp)

theorem takeWhile_ne_self {c : Char} {xs : List Char} (h : c ∉ xs) :
    xs.takeWhile (· != c) = xs :=
  List.takeWhile_eq_self_iff.mpr fun d hd => by simpa using fun same : d = c => h (same ▸ hd)

/-- A run of characters of a class, and what stands behind it. -/
theorem exists_run (p : Char → Bool) (cs : List Char) :
    ∃ run rest, cs = run ++ rest ∧ (∀ c ∈ run, p c = true) ∧ ∀ c ∈ rest.head?, p c = false := by
  refine ⟨cs.takeWhile p, cs.dropWhile p, List.takeWhile_append_dropWhile.symm,
    fun c hc => List.mem_takeWhile_imp hc, fun c hc => ?_⟩
  have := List.head?_dropWhile_not p cs
  rw [hc] at this
  simpa using this

/-! ### Classes of characters -/

/-- What none of some characters is, is none of them. -/
theorem notMem_of_all {p : Char → Bool} {cs : List Char} (others : cs.all (!p ·) = true) {c : Char}
    (h : p c = true) : c ∉ cs := by
  intro mem
  have lacks := List.all_eq_true.mp others c mem
  rw [h] at lacks
  cases lacks

/-- What holds of the characters of ASCII and of all others holds of every character. -/
theorem of_ascii {p : Char → Prop} (ascii : ∀ n < 128, p (Char.ofNat n))
    (others : ∀ c : Char, 128 ≤ c.toNat → p c) (c : Char) : p c := by
  by_cases small : c.toNat < 128
  · have := ascii c.toNat small
    rwa [Char.ofNat_toNat] at this
  · exact others c (Nat.le_of_not_lt small)

theorem lt_of_isAlpha {c : Char} (h : c.isAlpha = true) : c.toNat < 128 := by
  have upper : 'Z'.val.toNat = 90 := rfl
  have lower : 'z'.val.toNat = 122 := rfl
  have code : c.toNat = c.val.toNat := rfl
  have cases : (c.isUpper || c.isLower) = true := h
  rcases Bool.or_eq_true_iff.mp cases with h | h
  · have last : c.val.toNat ≤ 'Z'.val.toNat := UInt32.le_iff_toNat_le.mp (of_decide_eq_true h).2
    omega
  · have last : c.val.toNat ≤ 'z'.val.toNat :=
      UInt32.le_iff_toNat_le.mp (of_decide_eq_true (Bool.and_eq_true_iff.mp h).2)
    omega

namespace Lexeme

/-- Whether a character can be passed over: it is no mark, no operator, no quote, no digit and no
part of a word. -/
def isIdle (c : Char) : Bool :=
  (punctuation? c).isNone && !isOperator c && c != '"' && c != '\'' && !Text.isDigit c &&
    !isWordPart c

/-- The code points of the blanks. -/
def blankCodes : List Nat :=
  [9, 10, 11, 12, 13, 28, 29, 30, 31, 32, 0x85, 0xa0, 0x1680, 0x2000, 0x2001, 0x2002, 0x2003,
    0x2004, 0x2005, 0x2006, 0x2007, 0x2008, 0x2009, 0x200a, 0x2028, 0x2029, 0x202f, 0x205f, 0x3000]

theorem mem_blankCodes {c : Char} (h : Text.isBlank c = true) : c.toNat ∈ blankCodes := by
  simp only [Text.isBlank, Bool.or_eq_true, Bool.and_eq_true, decide_eq_true_eq, beq_iff_eq] at h
  simp only [blankCodes, List.mem_cons, List.not_mem_nil, or_false]
  omega

theorem isIdle_of_isBlank {c : Char} (h : Text.isBlank c = true) : isIdle c = true := by
  have idle : ∀ n ∈ blankCodes, isIdle (Char.ofNat n) = true := by decide +kernel
  have := idle c.toNat (mem_blankCodes h)
  rwa [Char.ofNat_toNat] at this

theorem isBlank_of_not_isIdle {c : Char} (h : isIdle c = false) : Text.isBlank c = false :=
  Bool.eq_false_iff.mpr fun blank => by
    rw [isIdle_of_isBlank blank] at h
    cases h

theorem isDigit_of_isWordStart {c : Char} (h : isWordStart c = true) : Text.isDigit c = false := by
  revert h
  refine of_ascii (p := fun c => isWordStart c = true → Text.isDigit c = false) (by decide) ?_ c
  intro c large start
  simp only [isWordStart, Bool.or_eq_true, beq_iff_eq] at start
  rcases start with letter | rfl
  · have := lt_of_isAlpha letter
    omega
  · exact absurd large (by decide)

theorem isDecimal_of_isDigit {c : Char} (h : c.isDigit = true) : Text.isDecimal c = true := by
  simp only [Char.isDigit, Bool.and_eq_true, decide_eq_true_eq] at h
  obtain ⟨low, high⟩ := h
  have small : c.val < 128 := Nat.lt_of_le_of_lt high (by decide)
  have inRange : '0' ≤ c ∧ c ≤ '9' := ⟨low, high⟩
  simp [Text.isDecimal, Text.decimalValue?, small, inRange]

/-- A digit of a word is a digit. -/
theorem isWordStart_of_isWordPart {c : Char} (h : isWordPart c = true)
    (noDigit : Text.isDigit c = false) : isWordStart c = true := by
  simp only [isWordPart, Char.isAlphanum, Bool.or_eq_true] at h
  rcases h with (h | h) | h
  · simp [isWordStart, h]
  · simp [Text.isDigit, isDecimal_of_isDigit h] at noDigit
  · simp_all [isWordStart]

theorem isWordPart_of_isWordStart {c : Char} (h : isWordStart c = true) : isWordPart c = true := by
  simp only [isWordStart, Bool.or_eq_true] at h
  simp only [isWordPart, Char.isAlphanum, Bool.or_eq_true]
  exact h.imp .inl id

/-- The marks, the operators and the quotes. -/
def marks : List Char :=
  ['(', ')', '[', ']', '\x7b', '\x7d', ',', '+', '-', '*', '/', '%', '>', '<', '=', '!', '"', '\'']

/-! ### Forms -/

/-- How the tokens of each kind are written: their text, their characters, and what follows
them. -/
inductive Form (isFunction : String → Bool) :
    TokenKind → String → List Char → List Char → Prop where
  | mark {c kind rest} (h : punctuation? c = some kind) :
      Form isFunction kind c.toString [c] rest
  | double {c d rest} (h : isDoubleOperator c d = true) :
      Form isFunction .operator (String.ofList [c, d]) [c, d] rest
  | single {c rest} (h : isOperator c = true)
      (alone : ∀ d ∈ rest.head?, isDoubleOperator c d = false) :
      Form isFunction .operator c.toString [c] rest
  | string {quote body rest} (isQuote : quote = '"' ∨ quote = '\'') (h : quote ∉ body) :
      Form isFunction .string (String.ofList body) (quote :: (body ++ [quote])) rest
  /-- A quote without its partner; nothing follows. -/
  | unclosed {quote body} (isQuote : quote = '"' ∨ quote = '\'') (h : quote ∉ body) :
      Form isFunction .string (String.ofList body) (quote :: body) []
  /-- Digits, with neither a digit nor a point behind them. -/
  | whole {digits rest} (notEmpty : digits ≠ []) (h : ∀ c ∈ digits, Text.isDigit c = true)
      (stops : ∀ c ∈ rest.head?, Text.isDigit c = false ∧ c ≠ '.') :
      Form isFunction .number (String.ofList digits) digits rest
  /-- Digits with a point in front of them, among them or behind them. -/
  | decimal {whole fraction rest} (notEmpty : whole ≠ [] ∨ fraction ≠ [])
      (hw : ∀ c ∈ whole, Text.isDigit c = true) (hf : ∀ c ∈ fraction, Text.isDigit c = true)
      (stops : ∀ c ∈ rest.head?, Text.isDigit c = false) :
      Form isFunction .number (String.ofList (whole ++ '.' :: fraction)) (whole ++ '.' :: fraction)
        rest
  | identifier {c more rest} (start : isWordStart c = true)
      (parts : ∀ d ∈ more, isWordPart d = true) (stops : ∀ d ∈ rest.head?, isWordPart d = false)
      (noFunction : isFunction ((String.ofList (c :: more)).map Char.toUpper) = false) :
      Form isFunction .identifier (String.ofList (c :: more)) (c :: more) rest
  | function {c more rest} (start : isWordStart c = true)
      (parts : ∀ d ∈ more, isWordPart d = true) (stops : ∀ d ∈ rest.head?, isWordPart d = false)
      (known : isFunction ((String.ofList (c :: more)).map Char.toUpper) = true) :
      Form isFunction .function ((String.ofList (c :: more)).map Char.toUpper) (c :: more) rest

/-- The kinds of tokens that are one mark each, which is no operator. -/
def isMark : TokenKind → Bool
  | .leftParen | .rightParen | .leftBracket | .rightBracket | .leftBrace | .rightBrace | .comma =>
    true
  | _ => false

theorem isMark_of_punctuation {c : Char} {kind : TokenKind} (h : punctuation? c = some kind) :
    isMark kind = true := by
  unfold punctuation? at h
  split at h <;> cases h <;> rfl

/-- No token of a text is an end mark. -/
theorem Form.ne_endMark {isFunction : String → Bool} {kind : TokenKind} {text : String}
    {own rest : List Char} (h : Form isFunction kind text own rest) : kind ≠ .endMark := by
  cases h with
  | mark h =>
    rintro rfl
    cases isMark_of_punctuation h
  | _ => decide

/-- A word with the name of a function names one. -/
theorem Form.isFunction {isFunction : String → Bool} {text : String} {own rest : List Char}
    (h : Form isFunction .function text own rest) : isFunction text = true := by
  cases h with
  | mark h => cases isMark_of_punctuation h
  | function _ _ _ known => exact known

variable {isFunction : String → Bool} {c : Char} {rest : List Char}

/-! ### What the reader takes is a form -/

/-- A string ends with the quote that it starts with, or with the text. -/
theorem form_of_quote (isQuote : c = '"' ∨ c = '\'') (rest : List Char) :
    let body := rest.takeWhile (· != c)
    ∃ more after, rest = more ++ after ∧ more.length = min (body.length + 1) rest.length ∧
      Form isFunction .string (String.ofList body) (c :: more) after := by
  intro body
  obtain ⟨run, after, split, inside, stop⟩ := exists_run (· != c) rest
  have noQuote : c ∉ run := fun h => by simpa using inside c h
  have isBody : body = run := by
    change rest.takeWhile _ = run
    rw [split]
    exact takeWhile_append_of_stop inside stop
  rw [isBody]
  cases after with
  | nil =>
    have whole : rest = run := by simpa using split
    exact ⟨run, [], split, by simp [whole], .unclosed isQuote noQuote⟩
  | cons d after =>
    obtain rfl : d = c := by simpa using stop d rfl
    exact ⟨run ++ [d], after, by simpa using split, by simp [split], .string isQuote noQuote⟩

/-- A numeral goes on to the second point, or to what is no digit. -/
theorem form_of_startsNumeral (starts : startsNumeral c rest = true) :
    ∃ after, rest = numeralRest c rest ++ after ∧
      Form isFunction .number (String.ofList (c :: numeralRest c rest)) (c :: numeralRest c rest)
        after := by
  obtain ⟨run, after, rfl, digits, stop⟩ := exists_run Text.isDigit rest
  have run_eq : (run ++ after).takeWhile Text.isDigit = run := takeWhile_append_of_stop digits stop
  have after_eq : (run ++ after).dropWhile Text.isDigit = after :=
    dropWhile_append_of_stop digits stop
  simp only [startsNumeral, Bool.or_eq_true, Bool.and_eq_true, beq_iff_eq] at starts
  unfold numeralRest
  simp only [run_eq, after_eq, beq_iff_eq]
  by_cases point : c = '.'
  · subst point
    have notEmpty : run ≠ [] := by
      rintro rfl
      obtain ⟨_, next⟩ := starts.resolve_left (by decide)
      obtain ⟨d, hd, digit⟩ := (Option.any_eq_true _ _).mp next
      rw [stop d hd] at digit
      cases digit
    rw [if_pos rfl]
    have form : Form isFunction .number _ ([] ++ '.' :: run) after :=
      .decimal (.inr notEmpty) (by simp) digits stop
    exact ⟨after, rfl, form⟩
  rw [if_neg point]
  have first : Text.isDigit c = true := starts.resolve_right fun h => point h.1
  have inside : ∀ d ∈ c :: run, Text.isDigit d = true := by simpa using ⟨first, digits⟩
  have notEmpty : c :: run ≠ [] := by simp
  split
  · rename_i more
    obtain ⟨fraction, after, rfl, fractionDigits, fractionStop⟩ := exists_run Text.isDigit more
    rw [takeWhile_append_of_stop fractionDigits fractionStop]
    exact ⟨after, by simp, .decimal (.inl notEmpty) inside fractionDigits fractionStop⟩
  · rename_i noPoint
    refine ⟨after, rfl, .whole notEmpty inside fun d hd => ⟨stop d hd, ?_⟩⟩
    rintro rfl
    obtain ⟨more, rfl⟩ := List.head?_eq_some_iff.mp hd
    exact noPoint more rfl

/-- A word goes on to what is no part of a word. -/
theorem form_of_isWordStart (isFunction : String → Bool) (start : isWordStart c = true)
    (rest : List Char) :
    let more := rest.takeWhile isWordPart
    let word := String.ofList (c :: more)
    ∃ after, rest = more ++ after ∧
      (isFunction (word.map Char.toUpper) = true →
        Form isFunction .function (word.map Char.toUpper) (c :: more) after) ∧
      (isFunction (word.map Char.toUpper) = false →
        Form isFunction .identifier word (c :: more) after) := by
  obtain ⟨run, after, rfl, parts, stop⟩ := exists_run isWordPart rest
  rw [takeWhile_append_of_stop parts stop]
  exact ⟨after, rfl, .function start parts stop, .identifier start parts stop⟩

/-- A token is written in one of the forms. -/
theorem form_of_at? {lexeme : Lexeme} (h : at? isFunction c rest = some lexeme) :
    ∃ more after, rest = more ++ after ∧ more.length = lexeme.extra ∧
      Form isFunction lexeme.kind lexeme.text (c :: more) after := by
  unfold at? at h
  split at h
  · cases h
  split at h
  · cases h
    exact ⟨[], rest, rfl, rfl, .mark ‹_›⟩
  split at h
  · rename_i double
    cases h
    obtain ⟨d, hd, double⟩ := (Option.any_eq_true _ _).mp double
    obtain ⟨rest, rfl⟩ := List.head?_eq_some_iff.mp hd
    exact ⟨[d], rest, rfl, rfl, .double double⟩
  rename_i alone
  split at h
  · rename_i single
    cases h
    refine ⟨[], rest, rfl, rfl, .single single fun d hd => Bool.eq_false_iff.mpr fun double => ?_⟩
    exact alone ((Option.any_eq_true _ _).mpr ⟨d, hd, double⟩)
  split at h
  · rename_i isQuote
    cases h
    exact form_of_quote (by simpa using isQuote) rest
  split at h
  · rename_i starts
    cases h
    obtain ⟨after, split, form⟩ := form_of_startsNumeral starts
    exact ⟨_, after, split, rfl, form⟩
  split at h
  · rename_i start
    obtain ⟨after, split, function, identifier⟩ := form_of_isWordStart isFunction start rest
    dsimp only at h
    split at h
    · rename_i known
      cases h
      exact ⟨_, after, split, rfl, function known⟩
    · rename_i noFunction
      cases h
      exact ⟨_, after, split, rfl, identifier (by simpa using noFunction)⟩
  · cases h

/-! ### A form is what the reader takes -/

theorem isDoubleOperator_first {d : Char} (h : isDoubleOperator c d = true) :
    c = '>' ∨ c = '<' ∨ c = '!' := by
  simp only [isDoubleOperator, Bool.or_eq_true, Bool.and_eq_true, beq_iff_eq] at h
  rcases h with (⟨rfl, _⟩ | ⟨rfl, _⟩) | ⟨rfl, _⟩ <;> simp

/-- What starts with no mark is a number or a word. -/
theorem at?_of_notMem_marks (noBlank : Text.isBlank c = false) (noMark : c ∉ marks) :
    at? isFunction c rest =
      if startsNumeral c rest then
        some ⟨.number, String.ofList (c :: numeralRest c rest), (numeralRest c rest).length⟩
      else if isWordStart c then
        let more := rest.takeWhile isWordPart
        let word := String.ofList (c :: more)
        if isFunction (word.map Char.toUpper) then
          some ⟨.function, word.map Char.toUpper, more.length⟩
        else some ⟨.identifier, word, more.length⟩
      else none := by
  have noPunctuation : punctuation? c = none := by
    unfold punctuation?
    split <;> first | rfl | exact absurd noMark (by decide)
  have noDouble : rest.head?.any (isDoubleOperator c) = false := by
    refine Bool.eq_false_iff.mpr fun h => ?_
    obtain ⟨d, _, double⟩ := (Option.any_eq_true _ _).mp h
    rcases isDoubleOperator_first double with rfl | rfl | rfl <;> exact noMark (by decide)
  have noOperator : isOperator c = false := Bool.eq_false_iff.mpr fun h => by
    have among := List.contains_iff_mem.mp h
    simp only [marks, List.mem_cons, not_or] at noMark
    simp [noMark] at among
  have noQuote : (c == '"' || c == '\'') = false := by
    simp only [marks, List.mem_cons, not_or] at noMark
    simp [noMark]
  unfold at?
  simp only [noBlank, noPunctuation, noDouble, noOperator, noQuote, Bool.false_eq_true, if_false]

/-- A digit starts a numeral. -/
theorem at?_of_isDigit (digit : Text.isDigit c = true) : at? isFunction c rest =
    some ⟨.number, String.ofList (c :: numeralRest c rest), (numeralRest c rest).length⟩ := by
  have noIdle : isIdle c = false := by simp [isIdle, digit]
  rw [at?_of_notMem_marks (isBlank_of_not_isIdle noIdle) (notMem_of_all (by decide) digit), if_pos]
  simp [startsNumeral, digit]

theorem at?_of_isWordStart (start : isWordStart c = true) : at? isFunction c rest =
    let more := rest.takeWhile isWordPart
    let word := String.ofList (c :: more)
    if isFunction (word.map Char.toUpper) then
      some ⟨.function, word.map Char.toUpper, more.length⟩
    else some ⟨.identifier, word, more.length⟩ := by
  have noIdle : isIdle c = false := by simp [isIdle, isWordPart_of_isWordStart start]
  have noPoint : c ≠ '.' := by
    rintro rfl
    cases start
  have noNumeral : startsNumeral c rest = false := by
    simp [startsNumeral, isDigit_of_isWordStart start, noPoint]
  rw [at?_of_notMem_marks (isBlank_of_not_isIdle noIdle) (notMem_of_all (by decide) start),
    noNumeral, if_neg (by decide), if_pos start]

theorem at?_of_punctuation {kind : TokenKind} (h : punctuation? c = some kind) :
    at? isFunction c rest = some ⟨kind, c.toString, 0⟩ := by
  have noIdle : isIdle c = false := by simp [isIdle, h]
  unfold at?
  rw [if_neg (by simp [isBlank_of_not_isIdle noIdle]), h]

theorem punctuation?_of_isOperator (h : isOperator c = true) : punctuation? c = none := by
  unfold punctuation?
  split <;> first | rfl | cases h

theorem at?_of_isOperator (h : isOperator c = true) : at? isFunction c rest =
    if rest.head?.any (isDoubleOperator c) then
      some ⟨.operator, String.ofList (c :: rest.take 1), 1⟩
    else some ⟨.operator, c.toString, 0⟩ := by
  have noIdle : isIdle c = false := by simp [isIdle, h]
  unfold at?
  rw [if_neg (by simp [isBlank_of_not_isIdle noIdle]), punctuation?_of_isOperator h]
  simp only [h, if_true]

theorem at?_of_quote (isQuote : c = '"' ∨ c = '\'') :
    at? isFunction c rest =
      let body := rest.takeWhile (· != c)
      some ⟨.string, String.ofList body, min (body.length + 1) rest.length⟩ := by
  have noDouble : rest.head?.any (isDoubleOperator c) = false := by
    refine Bool.eq_false_iff.mpr fun h => ?_
    obtain ⟨d, _, double⟩ := (Option.any_eq_true _ _).mp h
    rcases isQuote with rfl | rfl <;> cases double
  rcases isQuote with rfl | rfl <;>
    simp [at?, noDouble, Text.isBlank, punctuation?, isOperator]

theorem ne_point_of_isDigit (h : Text.isDigit c = true) : c ≠ '.' := by
  rintro rfl
  revert h
  decide

theorem numeralRest_whole {digits : List Char} (noPoint : c ≠ '.')
    (inside : ∀ d ∈ digits, Text.isDigit d = true)
    (stops : ∀ d ∈ rest.head?, Text.isDigit d = false ∧ d ≠ '.') :
    numeralRest c (digits ++ rest) = digits := by
  have stop : ∀ d ∈ rest.head?, Text.isDigit d = false := fun d hd => (stops d hd).1
  unfold numeralRest
  simp only [takeWhile_append_of_stop inside stop, dropWhile_append_of_stop inside stop]
  rw [if_neg (by simpa using noPoint)]
  split
  · exact absurd rfl (stops '.' rfl).2
  · rfl

theorem numeralRest_decimal {whole fraction : List Char} (noPoint : c ≠ '.')
    (inside : ∀ d ∈ whole, Text.isDigit d = true) (behind : ∀ d ∈ fraction, Text.isDigit d = true)
    (stop : ∀ d ∈ rest.head?, Text.isDigit d = false) :
    numeralRest c (whole ++ '.' :: (fraction ++ rest)) = whole ++ '.' :: fraction := by
  have point : ∀ d ∈ ('.' :: (fraction ++ rest)).head?, Text.isDigit d = false := by
    rintro d ⟨⟩
    decide
  unfold numeralRest
  simp only [takeWhile_append_of_stop inside point, dropWhile_append_of_stop inside point,
    takeWhile_append_of_stop behind stop]
  rw [if_neg (by simpa using noPoint)]

theorem at?_of_point {fraction : List Char} (notEmpty : fraction ≠ [])
    (behind : ∀ d ∈ fraction, Text.isDigit d = true)
    (stop : ∀ d ∈ rest.head?, Text.isDigit d = false) :
    at? isFunction '.' (fraction ++ rest) =
      some ⟨.number, String.ofList ('.' :: fraction), fraction.length⟩ := by
  have starts : startsNumeral '.' (fraction ++ rest) = true := by
    cases fraction with
    | nil => exact absurd rfl notEmpty
    | cons d fraction => simp [startsNumeral, behind d List.mem_cons_self]
  have rest_eq : numeralRest '.' (fraction ++ rest) = fraction := by
    unfold numeralRest
    simp [takeWhile_append_of_stop behind stop]
  rw [at?_of_notMem_marks (by decide) (by decide), if_pos starts, rest_eq]

/-- The reader takes what is written in one of the forms. -/
theorem at?_of_form {kind : TokenKind} {text : String} {more : List Char}
    (h : Form isFunction kind text (c :: more) rest) :
    at? isFunction c (more ++ rest) = some ⟨kind, text, more.length⟩ := by
  generalize same : c :: more = own at h
  cases h with
  | mark h =>
    cases same
    exact at?_of_punctuation h
  | double h =>
    cases same
    have single : isOperator c = true := by
      rcases isDoubleOperator_first h with rfl | rfl | rfl <;> rfl
    rw [at?_of_isOperator single, if_pos (by simpa using h)]
    rfl
  | single h alone =>
    cases same
    have noDouble : rest.head?.any (isDoubleOperator c) = false := by
      refine Bool.eq_false_iff.mpr fun double => ?_
      obtain ⟨d, hd, double⟩ := (Option.any_eq_true _ _).mp double
      rw [alone d hd] at double
      cases double
    rw [List.nil_append, at?_of_isOperator h, if_neg (by simp [noDouble])]
    rfl
  | @string quote body _ isQuote noQuote =>
    cases same
    have split : body ++ [c] ++ rest = body ++ c :: rest := by simp
    rw [split, at?_of_quote isQuote]
    simp only [takeWhile_ne_append noQuote, List.length_append, List.length_cons, List.length_nil]
    simp
  | unclosed isQuote noQuote =>
    cases same
    rw [List.append_nil, at?_of_quote isQuote]
    simp [takeWhile_ne_self noQuote]
  | whole _ digits stops =>
    subst same
    obtain ⟨first, others⟩ := List.forall_mem_cons.mp digits
    rw [at?_of_isDigit first, numeralRest_whole (ne_point_of_isDigit first) others stops]
  | @decimal whole fraction _ notEmpty inside behind stop =>
    cases whole with
    | nil =>
      cases same
      exact at?_of_point (notEmpty.resolve_left (by simp)) behind stop
    | cons d whole =>
      cases same
      obtain ⟨first, others⟩ := List.forall_mem_cons.mp inside
      rw [List.append_eq, List.append_assoc, List.cons_append, at?_of_isDigit first,
        numeralRest_decimal (ne_point_of_isDigit first) others behind stop]
      rfl
  | identifier start parts stops noFunction =>
    cases same
    rw [at?_of_isWordStart start]
    simp only [takeWhile_append_of_stop parts stops, noFunction, Bool.false_eq_true, if_false]
  | function start parts stops known =>
    cases same
    rw [at?_of_isWordStart start]
    simp only [takeWhile_append_of_stop parts stops, known, if_true]

theorem at?_of_isBlank (blank : Text.isBlank c = true) : at? isFunction c rest = none := by
  unfold at?
  rw [if_pos blank]

/-- No token starts at an idle character, unless it is the point of a numeral. -/
theorem at?_eq_none_iff :
    at? isFunction c rest = none ↔ isIdle c = true ∧ startsNumeral c rest = false := by
  constructor
  · intro none
    have noMark : punctuation? c = .none := by
      cases h : punctuation? c with
      | none => rfl
      | some kind => rw [at?_of_punctuation h] at none; cases none
    have noOperator : isOperator c = false := Bool.eq_false_iff.mpr fun h => by
      rw [at?_of_isOperator h] at none
      split at none <;> cases none
    have noQuote : ¬ (c = '"' ∨ c = '\'') := fun h => by
      rw [at?_of_quote h] at none
      cases none
    have noDigit : Text.isDigit c = false := Bool.eq_false_iff.mpr fun h => by
      rw [at?_of_isDigit h] at none
      cases none
    have noPart : isWordPart c = false := Bool.eq_false_iff.mpr fun h => by
      rw [at?_of_isWordStart (isWordStart_of_isWordPart h noDigit)] at none
      dsimp only at none
      split at none <;> cases none
    have noNumeral : startsNumeral c rest = false := Bool.eq_false_iff.mpr fun starts => by
      obtain ⟨rfl, _⟩ : c = '.' ∧ _ := by
        simpa only [startsNumeral, noDigit, Bool.false_or, Bool.and_eq_true, beq_iff_eq]
          using starts
      rw [at?_of_notMem_marks (by decide) (by decide), if_pos starts] at none
      cases none
    rw [not_or] at noQuote
    exact ⟨by simp [isIdle, noMark, noOperator, noQuote, noDigit, noPart], noNumeral⟩
  · rintro ⟨idle, noNumeral⟩
    cases blank : Text.isBlank c with
    | true => exact at?_of_isBlank blank
    | false =>
      have noWord : isWordStart c = false := Bool.eq_false_iff.mpr fun h => by
        simp [isIdle, isWordPart_of_isWordStart h] at idle
      rw [at?_of_notMem_marks blank (notMem_of_all (by decide) idle), noNumeral, noWord]
      rfl

theorem at?_eq_some_iff {lexeme : Lexeme} : at? isFunction c rest = some lexeme ↔
    ∃ more after, rest = more ++ after ∧ more.length = lexeme.extra ∧
      Form isFunction lexeme.kind lexeme.text (c :: more) after := by
  refine ⟨form_of_at?, ?_⟩
  rintro ⟨more, after, rfl, extra, form⟩
  rw [at?_of_form form, extra]

end Lexeme

end Quarterly.Formula
