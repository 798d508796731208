import Quarterly.Proofs.Formula.Tree

/-!
# Trees in their place

A tree is placed at a token if its words stand there and what follows them does not continue it.
How far a phrase reaches is a matter of how tightly the next word binds: an expression ends before
a closing word only, an operand of a product ends before any operator of products or of anything
looser. A placed tree is what the grammar reads there (`Placed.reads`).
-/

namespace Quarterly.Formula

/-! ### Words in a row of tokens -/

section

variable (tokens : Array Token)

def wordAt (p : Nat) : Option Word := tokens[p]?.map Token.word

/-- Some words stand in a row from a position on. -/
def WrittenAt : Nat → List Word → Prop
  | _, [] => True
  | p, w :: ws => wordAt tokens p = some w ∧ WrittenAt (p + 1) ws

end

section

variable {tokens : Array Token} {p : Nat} {w : Word}

theorem kindAt_of_wordAt (h : wordAt tokens p = some w) : kindAt tokens p = some w.kind := by
  unfold wordAt at h
  unfold kindAt
  grind [Token.word]

theorem operatorAt_of_wordAt (h : wordAt tokens p = some w) :
    operatorAt tokens p = if w.kind = .operator then some w.text else none := by
  unfold wordAt at h
  unfold operatorAt
  grind [Token.word]

theorem functionAt_of_wordAt (h : wordAt tokens p = some w) (kind : w.kind = .function) :
    functionAt tokens p = some w.text := by
  unfold wordAt at h
  unfold functionAt
  grind [Token.word]

theorem lt_size_of_token {token : Token} (h : tokens[p]? = some token) : p < tokens.size :=
  (Array.getElem?_eq_some_iff.mp h).1

theorem lt_size_of_wordAt (h : wordAt tokens p = some w) : p < tokens.size := by
  unfold wordAt at h
  grind

@[simp] theorem writtenAt_nil : WrittenAt tokens p [] ↔ True := Iff.rfl

@[simp] theorem writtenAt_cons {ws : List Word} :
    WrittenAt tokens p (w :: ws) ↔ wordAt tokens p = some w ∧ WrittenAt tokens (p + 1) ws :=
  Iff.rfl

@[simp] theorem writtenAt_append {a b : List Word} :
    WrittenAt tokens p (a ++ b) ↔ WrittenAt tokens p a ∧ WrittenAt tokens (p + a.length) b := by
  induction a generalizing p with
  | nil => simp
  | cons w a ih => simp [ih, and_assoc, Nat.add_comm, Nat.add_left_comm]

/-- Words that are written one after the other are written in a row. -/
theorem writtenAt_of_drop {p : Nat} {ws : List Word}
    (h : (tokens.toList.drop p).map Token.word = ws) : WrittenAt tokens p ws := by
  induction ws generalizing p with
  | nil => trivial
  | cons w ws ih =>
    obtain ⟨token, rest, hd, hw, hr⟩ := List.map_eq_cons_iff.mp h
    have first : tokens[p]? = some token := by
      rw [← Array.getElem?_toList, ← List.head?_drop, hd]
      rfl
    have behind : tokens.toList.drop (p + 1) = rest := by
      rw [← List.tail_drop, hd]
      rfl
    have word : wordAt tokens p = some w := by
      rw [wordAt, first, ← hw]
      rfl
    exact ⟨word, ih (behind ▸ hr)⟩

end

/-! ### How tightly words bind -/

/-- How tightly a word binds to what stands before it. -/
def Word.tightness (w : Word) : Nat :=
  match w.kind with
  | .comma | .rightParen | .rightBracket | .rightBrace | .endMark => 0
  | .operator =>
    if (Rule.factorOp? w.text).isSome then 3
    else if (Rule.termOp? w.text).isSome then 2
    else if (ComparisonOp.ofSymbol? w.text).isSome then 1
    else 4
  | _ => 5

/-- The operators of a rank bind more tightly than this. -/
def Rank.bound : Rank → Nat
  | .sum => 1
  | .product => 2

/-- How tightly a word may bind that follows a phrase. Operators of a rank may follow operands of
that rank. -/
def Phrase.bound : Phrase → Nat
  | .level rank => rank.bound + 1
  | .unary => 3
  | .primary => 4
  | _ => 0

/-- The next word binds at most as tightly as given. -/
def LooseAt (tokens : Array Token) (bound q : Nat) : Prop :=
  ∃ w, wordAt tokens q = some w ∧ w.tightness ≤ bound

theorem Word.tightness_operator (symbol : String) :
    (Word.operator symbol).tightness =
      if (Rule.factorOp? symbol).isSome then 3
      else if (Rule.termOp? symbol).isSome then 2
      else if (ComparisonOp.ofSymbol? symbol).isSome then 1
      else 4 := rfl

theorem ArithmeticOp.tightness_symbol (op : ArithmeticOp) :
    (Word.operator op.symbol).tightness = op.rank.bound + 1 := by
  cases op <;> decide

theorem ComparisonOp.tightness_symbol (op : ComparisonOp) :
    (Word.operator op.symbol).tightness = 1 := by
  cases op <;> decide

namespace LooseAt

variable {tokens : Array Token} {bound q : Nat}

theorem mono {bound' : Nat} (h : LooseAt tokens bound q) (le : bound ≤ bound') :
    LooseAt tokens bound' q := by
  obtain ⟨w, hw, ht⟩ := h
  exact ⟨w, hw, Nat.le_trans ht le⟩

theorem lt_size (h : LooseAt tokens bound q) : q < tokens.size := by
  obtain ⟨w, hw, _⟩ := h
  exact lt_size_of_wordAt hw

theorem exists_token (h : LooseAt tokens bound q) : ∃ token, tokens[q]? = some token :=
  ⟨_, Array.getElem?_eq_getElem h.lt_size⟩

/-- An operator that is next binds no more tightly. -/
theorem operator {symbol : String} (h : LooseAt tokens bound q)
    (ho : operatorAt tokens q = some symbol) : (Word.operator symbol).tightness ≤ bound := by
  obtain ⟨⟨kind, text⟩, hw, ht⟩ := h
  rw [operatorAt_of_wordAt hw] at ho
  split at ho
  · rename_i hk
    obtain rfl : kind = .operator := hk
    obtain rfl : text = symbol := Option.some.inj ho
    exact ht
  · cases ho

/-- No operator of a rank is next. -/
theorem noOperator {rank : Rank} (h : LooseAt tokens rank.bound q) :
    (operatorAt tokens q).bind rank.op? = none := by
  rw [Option.bind_eq_none_iff]
  intro symbol ho
  have loose := h.operator ho
  rw [Word.tightness_operator] at loose
  cases rank with
  | sum =>
    change Rule.termOp? symbol = none
    rw [← Option.not_isSome_iff_eq_none]
    grind [Rank.bound]
  | product =>
    change Rule.factorOp? symbol = none
    rw [← Option.not_isSome_iff_eq_none]
    grind [Rank.bound]

theorem noComparison (h : LooseAt tokens 0 q) :
    (operatorAt tokens q).bind ComparisonOp.ofSymbol? = none := by
  rw [Option.bind_eq_none_iff]
  intro symbol ho
  have loose := h.operator ho
  rw [Word.tightness_operator] at loose
  rw [← Option.not_isSome_iff_eq_none]
  grind

theorem noPercent (h : LooseAt tokens 3 q) : operatorAt tokens q ≠ some "%" := by
  intro ho
  exact absurd (h.operator ho) (by decide)

/-- Neither brackets nor arguments are next. -/
theorem noOpening (h : LooseAt tokens 4 q) :
    kindAt tokens q ≠ some .leftBracket ∧ kindAt tokens q ≠ some .leftParen := by
  obtain ⟨w, hw, ht⟩ := h
  rw [kindAt_of_wordAt hw]
  unfold Word.tightness at ht
  constructor <;> intro hk <;> injection hk with hk <;> simp [hk] at ht

/-- Nothing binds more loosely than a comma or a closing word. -/
theorem of_mark {kind : TokenKind} (h : wordAt tokens q = some (.mark kind))
    (loose : (Word.mark kind).tightness = 0) : LooseAt tokens bound q :=
  ⟨_, h, by omega⟩

end LooseAt

/-! ### Placed trees -/

section

variable (tokens : Array Token) (known : List (Nat × Tree .expression))

/-- A tree stands at a token, what follows binds no more tightly than given, and the bodies of its
lambdas are among those known. -/
structure Placed {phrase : Phrase} (t : Tree phrase) (bound p : Nat) : Prop where
  written : WrittenAt tokens p t.write
  next : LooseAt tokens bound (p + t.width)
  bodies : t.bodies p ⊆ known

/-- Some trees stand in a row with commas between them, up to a closing word. -/
structure PlacedAll (closing : TokenKind) (items : List (Tree .expression)) (p : Nat) : Prop where
  written : WrittenAt tokens p (Tree.writeAll items)
  next : wordAt tokens (p + Tree.widthAll items) = some (.mark closing)
  closes : closing = .rightBrace ∨ closing = .rightParen
  bodies : Tree.bodiesAll items p ⊆ known

/-- Some trees stand in a row with a comma before each, up to a closing word. -/
structure PlacedOthers (closing : TokenKind) (items : List (Tree .expression)) (p : Nat) :
    Prop where
  written : WrittenAt tokens p (Tree.writeOthers items)
  next : wordAt tokens (p + Tree.widthOthers items) = some (.mark closing)
  closes : closing = .rightBrace ∨ closing = .rightParen
  bodies : Tree.bodiesOthers items p ⊆ known

end

namespace Placed

variable {tokens : Array Token} {known : List (Nat × Tree .expression)} {bound p : Nat}

theorem mono {phrase : Phrase} {t : Tree phrase} {bound' : Nat} (h : Placed tokens known t bound p)
    (le : bound ≤ bound') : Placed tokens known t bound' p :=
  ⟨h.written, h.next.mono le, h.bodies⟩

/-- A tree whose end is known under another name. -/
theorem of_eq {phrase : Phrase} {t : Tree phrase} {q : Nat} (written : WrittenAt tokens p t.write)
    (end_eq : q = p + t.width) (next : LooseAt tokens bound q) (bodies : t.bodies p ⊆ known) :
    Placed tokens known t bound p :=
  ⟨written, end_eq ▸ next, bodies⟩

theorem plain {operand : Tree (.level .sum)} (h : Placed tokens known (.plain operand) bound p) :
    Placed tokens known operand bound p :=
  ⟨h.written, h.next, h.bodies⟩

theorem comparison {left right : Tree (.level .sum)} {op : ComparisonOp}
    (h : Placed tokens known (.comparison left op right) bound p) :
    Placed tokens known left 1 p ∧
      wordAt tokens (p + left.width) = some (.operator op.symbol) ∧
      Placed tokens known right bound (p + left.width + 1) := by
  obtain ⟨written, next, bodies⟩ := h
  simp only [Tree.write, writtenAt_append, writtenAt_cons, Tree.length_write] at written
  simp only [Tree.bodies, List.append_subset] at bodies
  obtain ⟨writtenLeft, symbol, writtenRight⟩ := written
  refine ⟨⟨writtenLeft, ⟨_, symbol, Nat.le_of_eq op.tightness_symbol⟩, bodies.1⟩, symbol, ?_⟩
  exact .of_eq writtenRight Tree.end_comparison next bodies.2

theorem alone {rank : Rank} {operand : Tree rank.operand}
    (h : Placed tokens known (.alone operand) bound p) : Placed tokens known operand bound p :=
  ⟨h.written, h.next, h.bodies⟩

theorem operation {rank : Rank} {left : Tree (.level rank)} {op : ArithmeticOp}
    {ofRank : op.rank = rank} {right : Tree rank.operand}
    (h : Placed tokens known (.operation left op ofRank right) bound p) :
    Placed tokens known left (rank.bound + 1) p ∧
      wordAt tokens (p + left.width) = some (.operator op.symbol) ∧
      Placed tokens known right bound (p + left.width + 1) := by
  obtain ⟨written, next, bodies⟩ := h
  simp only [Tree.write, writtenAt_append, writtenAt_cons, Tree.length_write] at written
  simp only [Tree.bodies, List.append_subset] at bodies
  obtain ⟨writtenLeft, symbol, writtenRight⟩ := written
  subst ofRank
  refine ⟨⟨writtenLeft, ⟨_, symbol, Nat.le_of_eq op.tightness_symbol⟩, bodies.1⟩, symbol, ?_⟩
  exact .of_eq writtenRight Tree.end_operation next bodies.2

theorem negation {operand : Tree .unary} (h : Placed tokens known (.negation operand) bound p) :
    wordAt tokens p = some (.operator "-") ∧ Placed tokens known operand bound (p + 1) := by
  obtain ⟨written, next, bodies⟩ := h
  exact ⟨written.1, .of_eq written.2 Tree.end_negation next bodies⟩

theorem percent {operand : Tree .primary} (h : Placed tokens known (.percent operand) bound p) :
    Placed tokens known operand 4 p ∧ wordAt tokens (p + operand.width) = some (.operator "%") := by
  obtain ⟨written, next, bodies⟩ := h
  simp only [Tree.write, writtenAt_append, writtenAt_cons, Tree.length_write] at written
  obtain ⟨writtenOperand, sign, -⟩ := written
  exact ⟨⟨writtenOperand, ⟨_, sign, by decide⟩, bodies⟩, sign⟩

theorem unsigned {operand : Tree .primary} (h : Placed tokens known (.unsigned operand) bound p) :
    Placed tokens known operand bound p :=
  ⟨h.written, h.next, h.bodies⟩

theorem array {items : List (Tree .expression)} (h : Placed tokens known (.array items) bound p) :
    wordAt tokens p = some (.mark .leftBrace) ∧
      PlacedAll tokens known .rightBrace items (p + 1) := by
  obtain ⟨written, next, bodies⟩ := h
  simp only [Tree.write, writtenAt_append, writtenAt_cons, List.cons_append] at written
  exact ⟨written.1, written.2.1, written.2.2.1, .inl rfl, bodies⟩

theorem reference {metric : String} {index : IndexWord}
    (h : Placed tokens known (.reference metric index) bound p) :
    wordAt tokens p = some ⟨.identifier, metric⟩ ∧
      wordAt tokens (p + 1) = some (.mark .leftBracket) ∧
      wordAt tokens (p + 2) = some index.write ∧
      wordAt tokens (p + 3) = some (.mark .rightBracket) := by
  obtain ⟨name, opening, word, closing, -⟩ := h.written
  exact ⟨name, opening, word, closing⟩

theorem unknownCall {function : String} {arguments : List (Tree .expression)}
    (h : Placed tokens known (.unknownCall function arguments) bound p) :
    wordAt tokens p = some ⟨.identifier, function⟩ ∧
      wordAt tokens (p + 1) = some (.mark .leftParen) ∧
      PlacedAll tokens known .rightParen arguments (p + 2) := by
  obtain ⟨written, next, bodies⟩ := h
  simp only [Tree.write, writtenAt_append, writtenAt_cons, List.cons_append] at written
  exact ⟨written.1, written.2.1, written.2.2.1, written.2.2.2.1, .inr rfl, bodies⟩

theorem call {function : Callee} {arguments : List (Tree .expression)}
    (h : Placed tokens known (.call function arguments) bound p) :
    wordAt tokens p = some ⟨.function, function.name⟩ ∧
      wordAt tokens (p + 1) = some (.mark .leftParen) ∧
      PlacedAll tokens known .rightParen arguments (p + 2) := by
  obtain ⟨written, next, bodies⟩ := h
  simp only [Tree.write, writtenAt_append, writtenAt_cons, List.cons_append] at written
  exact ⟨written.1, written.2.1, written.2.2.1, written.2.2.2.1, .inr rfl, bodies⟩

theorem letForm {bindings : Tree .bindings} (h : Placed tokens known (.letForm bindings) bound p) :
    wordAt tokens p = some ⟨.function, letName⟩ ∧
      wordAt tokens (p + 1) = some (.mark .leftParen) ∧
      Placed tokens known bindings 0 (p + 2) ∧
      wordAt tokens (p + 2 + bindings.width) = some (.mark .rightParen) := by
  obtain ⟨written, next, bodies⟩ := h
  simp only [Tree.write, writtenAt_append, writtenAt_cons, List.cons_append,
    Tree.length_write] at written
  obtain ⟨name, opening, writtenBindings, closing, -⟩ := written
  exact ⟨name, opening, ⟨writtenBindings, .of_mark closing (by decide), bodies⟩, closing⟩

theorem lambdaForm {parameter : String} {body : Tree .expression}
    (h : Placed tokens known (.lambdaForm parameter body) bound p) :
    wordAt tokens p = some ⟨.function, lambdaName⟩ ∧
      wordAt tokens (p + 1) = some (.mark .leftParen) ∧
      wordAt tokens (p + 2) = some ⟨.identifier, parameter⟩ ∧
      wordAt tokens (p + 3) = some (.mark .comma) ∧
      Placed tokens known body 0 (p + 4) ∧
      wordAt tokens (p + 4 + body.width) = some (.mark .rightParen) ∧
      (p + 4, body) ∈ known := by
  obtain ⟨written, next, bodies⟩ := h
  simp only [Tree.write, writtenAt_append, writtenAt_cons, List.cons_append,
    Tree.length_write] at written
  simp only [Tree.bodies, List.cons_subset] at bodies
  obtain ⟨name, opening, writtenParameter, comma, writtenBody, closing, -⟩ := written
  exact ⟨name, opening, writtenParameter, comma,
    ⟨writtenBody, .of_mark closing (by decide), bodies.2⟩, closing, bodies.1⟩

theorem parenthesized {inner : Tree .expression}
    (h : Placed tokens known (.parenthesized inner) bound p) :
    wordAt tokens p = some (.mark .leftParen) ∧ Placed tokens known inner 0 (p + 1) ∧
      wordAt tokens (p + 1 + inner.width) = some (.mark .rightParen) := by
  obtain ⟨written, next, bodies⟩ := h
  simp only [Tree.write, writtenAt_append, writtenAt_cons, List.cons_append,
    Tree.length_write] at written
  obtain ⟨opening, writtenInner, closing, -⟩ := written
  exact ⟨opening, ⟨writtenInner, .of_mark closing (by decide), bodies⟩, closing⟩

theorem letBody {body : Tree .expression} (h : Placed tokens known (.letBody body) bound p) :
    Placed tokens known body bound p :=
  ⟨h.written, h.next, h.bodies⟩

theorem binding {word : String} {t : Tree .expression} {rest : Tree .bindings}
    (h : Placed tokens known (.binding word t rest) bound p) :
    wordAt tokens p = some ⟨.identifier, word⟩ ∧
      wordAt tokens (p + 1) = some (.mark .comma) ∧ Placed tokens known t 0 (p + 2) ∧
      wordAt tokens (p + 2 + t.width) = some (.mark .comma) ∧
      Placed tokens known rest bound (p + 2 + t.width + 1) := by
  obtain ⟨written, next, bodies⟩ := h
  simp only [Tree.write, writtenAt_append, writtenAt_cons, List.cons_append,
    Tree.length_write] at written
  simp only [Tree.bodies, List.append_subset] at bodies
  obtain ⟨name, comma, writtenValue, comma', writtenRest⟩ := written
  refine ⟨name, comma, ⟨writtenValue, .of_mark comma' (by decide), bodies.1⟩, comma', ?_⟩
  exact .of_eq writtenRest Tree.end_binding next bodies.2

end Placed

section

variable {tokens : Array Token} {known : List (Nat × Tree .expression)} {closing : TokenKind}
  {t : Tree .expression} {rest : List (Tree .expression)} {p : Nat}

theorem PlacedAll.notEnd {items : List (Tree .expression)}
    (h : PlacedAll tokens known closing items p) : closing ≠ .endMark := by
  rcases h.closes with rfl | rfl <;> decide

/-- What follows an item is a comma or the closing word. -/
theorem PlacedOthers.looseAt {items : List (Tree .expression)}
    (h : PlacedOthers tokens known closing items p) : LooseAt tokens 0 p := by
  cases items with
  | nil =>
    have loose : (Word.mark closing).tightness = 0 := by
      rcases h.closes with rfl | rfl <;> decide
    exact .of_mark h.next loose
  | cons t rest =>
    have comma : wordAt tokens p = some (.mark .comma) := h.written.1
    exact .of_mark comma (by decide)

theorem PlacedOthers.cons (h : PlacedOthers tokens known closing (t :: rest) p) :
    wordAt tokens p = some (.mark .comma) ∧ Placed tokens known t 0 (p + 1) ∧
      PlacedOthers tokens known closing rest (p + 1 + t.width) := by
  obtain ⟨written, next, closes, bodies⟩ := h
  simp only [Tree.writeOthers, writtenAt_append, writtenAt_cons, List.cons_append,
    Tree.length_write] at written
  simp only [Tree.bodiesOthers, List.append_subset] at bodies
  rw [Tree.endOthers_cons] at next
  have others : PlacedOthers tokens known closing rest (p + 1 + t.width) :=
    ⟨written.2.2, next, closes, bodies.2⟩
  exact ⟨written.1, ⟨written.2.1, others.looseAt, bodies.1⟩, others⟩

theorem PlacedAll.cons (h : PlacedAll tokens known closing (t :: rest) p) :
    Placed tokens known t 0 p ∧ PlacedOthers tokens known closing rest (p + t.width) := by
  obtain ⟨written, next, closes, bodies⟩ := h
  simp only [Tree.writeAll, writtenAt_append, Tree.length_write] at written
  simp only [Tree.bodiesAll, List.append_subset] at bodies
  rw [Tree.endAll_cons] at next
  have others : PlacedOthers tokens known closing rest (p + t.width) :=
    ⟨written.2, next, closes, bodies.2⟩
  exact ⟨⟨written.1, others.looseAt, bodies.1⟩, others⟩

end

/-! ### How trees start -/

/-- The first word of a tree closes nothing, and that of a primary is no operator. -/
theorem Tree.exists_write_eq_cons : {phrase : Phrase} → (t : Tree phrase) →
    ∃ w ws, t.write = w :: ws ∧ 0 < w.tightness ∧ (phrase = .primary → w.kind ≠ .operator)
  | _, .plain operand => by
    obtain ⟨w, ws, h, ht, -⟩ := operand.exists_write_eq_cons
    exact ⟨w, ws, h, ht, by simp⟩
  | _, .comparison left op right => by
    obtain ⟨w, ws, h, ht, -⟩ := left.exists_write_eq_cons
    exact ⟨w, ws ++ .operator op.symbol :: right.write, by simp [write, h], ht, by simp⟩
  | _, .alone operand => by
    obtain ⟨w, ws, h, ht, -⟩ := operand.exists_write_eq_cons
    exact ⟨w, ws, h, ht, by simp⟩
  | _, .operation left op _ right => by
    obtain ⟨w, ws, h, ht, -⟩ := left.exists_write_eq_cons
    exact ⟨w, ws ++ .operator op.symbol :: right.write, by simp [write, h], ht, by simp⟩
  | _, .negation _ => ⟨_, _, rfl, by decide, by simp⟩
  | _, .percent operand => by
    obtain ⟨w, ws, h, ht, -⟩ := operand.exists_write_eq_cons
    exact ⟨w, ws ++ [.operator "%"], by simp [write, h], ht, by simp⟩
  | _, .unsigned operand => by
    obtain ⟨w, ws, h, ht, -⟩ := operand.exists_write_eq_cons
    exact ⟨w, ws, h, ht, by simp⟩
  | _, .letBody body => by
    obtain ⟨w, ws, h, ht, -⟩ := body.exists_write_eq_cons
    exact ⟨w, ws, h, ht, by simp⟩
  | _, .number _ | _, .string _ | _, .array _ | _, .name _ | _, .reference _ _
  | _, .unknownCall _ _ | _, .call _ _ | _, .letForm _ | _, .lambdaForm _ _ | _, .parenthesized _
  | _, .binding _ _ _ => ⟨_, _, rfl, by simp [Word.tightness, Word.mark], by simp [Word.mark]⟩

namespace Placed

variable {tokens : Array Token} {known : List (Nat × Tree .expression)} {bound p : Nat}

theorem exists_token {phrase : Phrase} {t : Tree phrase} (h : Placed tokens known t bound p) :
    ∃ token, tokens[p]? = some token := by
  obtain ⟨w, ws, hw, -⟩ := t.exists_write_eq_cons
  have first : wordAt tokens p = some w := (hw ▸ h.written).1
  obtain ⟨token, ht, -⟩ := Option.map_eq_some_iff.mp first
  exact ⟨token, ht⟩

/-- A tree has a word, so there is a token behind its first one. -/
theorem exists_following {phrase : Phrase} {t : Tree phrase} (h : Placed tokens known t bound p) :
    ∃ token, tokens[p + 1]? = some token := by
  obtain ⟨w, ws, hw, -⟩ := t.exists_write_eq_cons
  have length : t.width = ws.length + 1 := congrArg List.length hw
  have left : p + t.width < tokens.size := h.next.lt_size
  exact ⟨_, Array.getElem?_eq_getElem (by omega)⟩

/-- A primary starts with no minus sign. -/
theorem noSign {t : Tree .primary} (h : Placed tokens known t bound p) :
    operatorAt tokens p ≠ some "-" := by
  obtain ⟨w, ws, hw, -, noOperator⟩ := t.exists_write_eq_cons
  have first : wordAt tokens p = some w := (hw ▸ h.written).1
  rw [operatorAt_of_wordAt first, if_neg (noOperator rfl)]
  exact nofun

/-- A tree does not start with a closing word. -/
theorem kindAt_ne {phrase : Phrase} {t : Tree phrase} (h : Placed tokens known t bound p)
    {closing : TokenKind} (closes : closing = .rightBrace ∨ closing = .rightParen) :
    kindAt tokens p ≠ some closing := by
  obtain ⟨w, ws, hw, tight, -⟩ := t.exists_write_eq_cons
  have first : wordAt tokens p = some w := (hw ▸ h.written).1
  rw [kindAt_of_wordAt first]
  intro hk
  have kind : w.kind = closing := Option.some.inj hk
  unfold Word.tightness at tight
  rcases closes with rfl | rfl <;> simp [kind] at tight

end Placed

/-! ### Trees are read -/

/-- What a placed tree is read as. Operators may follow a tree of a rank, and what they start is
read on; bindings stop at the closing parenthesis. -/
def Phrase.Spans (tokens : Array Token) : Phrase → Nat → Nat → Prop
  | .level rank, p, q =>
    ∀ r, Reads tokens (.rest rank) q r → Reads tokens (.level rank) p r
  | .bindings, p, q => kindAt tokens q = some .rightParen → Reads tokens .bindings p q
  | phrase, p, q => Reads tokens phrase p q

namespace Rank

theorem bound_operand (rank : Rank) : rank.bound + 1 ≤ rank.operand.bound := by
  cases rank <;> decide

theorem reads_operand {tokens : Array Token} {rank : Rank} {p q : Nat}
    (h : rank.operand.Spans tokens p q) (next : LooseAt tokens (rank.bound + 1) q) :
    Reads tokens rank.operand p q := by
  cases rank with
  | sum =>
    have noFactor : (operatorAt tokens q).bind product.op? = none := LooseAt.noOperator next
    exact h q (.restEnd noFactor)
  | product => exact h

end Rank

theorem ArithmeticOp.op?_of_wordAt {tokens : Array Token} {q : Nat} {op : ArithmeticOp}
    {rank : Rank} (ofRank : op.rank = rank) (h : wordAt tokens q = some (.operator op.symbol)) :
    (operatorAt tokens q).bind rank.op? = some op := by
  have operator : operatorAt tokens q = some op.symbol := operatorAt_of_wordAt h
  rw [operator, ← ofRank]
  cases op <;> decide

theorem ComparisonOp.ofSymbol?_of_wordAt {tokens : Array Token} {q : Nat} {op : ComparisonOp}
    (h : wordAt tokens q = some (.operator op.symbol)) :
    (operatorAt tokens q).bind ComparisonOp.ofSymbol? = some op := by
  have operator : operatorAt tokens q = some op.symbol := operatorAt_of_wordAt h
  rw [operator]
  cases op <;> decide

theorem Callee.name_ne_letName (function : Callee) : function.name ≠ letName := by
  cases function with
  | builtin f => cases f <;> decide
  | map => decide

theorem Callee.name_ne_lambdaName (function : Callee) : function.name ≠ lambdaName := by
  cases function with
  | builtin f => cases f <;> decide
  | map => decide

theorem IndexWord.kind_write (index : IndexWord) :
    index.write.kind = .identifier ∨ index.write.kind = .number := by
  cases index with
  | word => exact .inl rfl
  | number => exact .inr rfl

section

variable {tokens : Array Token} {known : List (Nat × Tree .expression)}

mutual

/-- A placed tree is what the grammar reads in its place. -/
theorem Placed.spans : {phrase : Phrase} → (t : Tree phrase) → {p : Nat} →
    Placed tokens known t phrase.bound p → phrase.Spans tokens p (p + t.width)
  | _, .plain operand, p, h => by
    have reads := Placed.spans operand (h.plain.mono (Nat.zero_le _))
    have next : LooseAt tokens 0 (p + operand.width) := h.next
    have noTerm : (operatorAt tokens (p + operand.width)).bind Rank.sum.op? = none :=
      LooseAt.noOperator (next.mono (Nat.zero_le _))
    exact .plain (reads _ (.restEnd noTerm)) next.noComparison
  | _, .comparison left op right, p, h => by
    obtain ⟨placedLeft, symbol, placedRight⟩ := h.comparison
    have next : LooseAt tokens 0 (p + left.width + 1 + right.width) := placedRight.next
    have readsLeft := Placed.spans left (placedLeft.mono (by decide)) _
      (.restEnd (LooseAt.noOperator placedLeft.next))
    have readsRight := Placed.spans right (placedRight.mono (Nat.zero_le _)) _
      (.restEnd (LooseAt.noOperator (next.mono (Nat.zero_le _))))
    rw [Tree.end_comparison]
    exact .comparison readsLeft (ComparisonOp.ofSymbol?_of_wordAt symbol) readsRight
  | _, @Tree.alone rank operand, p, h => by
    intro r rest
    have spans := Placed.spans operand (h.alone.mono rank.bound_operand)
    exact .level (rank.reads_operand spans h.next) rest
  | _, @Tree.operation rank left op ofRank right, p, h => by
    intro r rest
    obtain ⟨placedLeft, symbol, placedRight⟩ := h.operation
    have spansRight := Placed.spans right (placedRight.mono rank.bound_operand)
    rw [Tree.end_operation] at rest
    have next : (operatorAt tokens (p + left.width)).bind rank.op? = some op :=
      ArithmeticOp.op?_of_wordAt ofRank symbol
    exact Placed.spans left placedLeft r
      (.restMore next (rank.reads_operand spansRight placedRight.next) rest)
  | _, .negation operand, p, h => by
    obtain ⟨sign, placed⟩ := h.negation
    rw [Tree.end_negation]
    exact .negation (operatorAt_of_wordAt sign) (Placed.spans operand placed)
  | _, .percent operand, p, h => by
    obtain ⟨placed, sign⟩ := h.percent
    rw [Tree.end_percent]
    exact .percent placed.noSign (Placed.spans operand placed) (operatorAt_of_wordAt sign)
  | _, .unsigned operand, p, h => by
    have placed := h.unsigned
    exact .unsigned placed.noSign (Placed.spans operand (placed.mono (by decide)))
      placed.next.noPercent
  | _, .number _, _, h => .number (kindAt_of_wordAt h.written.1)
  | _, .string _, _, h => .string (kindAt_of_wordAt h.written.1)
  | _, .array items, p, h => by
    obtain ⟨opening, placed⟩ := h.array
    rw [Tree.end_array]
    exact .array (kindAt_of_wordAt opening) (PlacedAll.reads items placed)
  | _, .name _, _, h =>
    have noOpening := h.next.noOpening
    .name (kindAt_of_wordAt h.written.1) noOpening.1 noOpening.2
  | _, .reference _ index, _, h => by
    obtain ⟨name, opening, word, closing⟩ := h.reference
    refine .reference (kindAt_of_wordAt name) (kindAt_of_wordAt opening) ?_
      (kindAt_of_wordAt closing)
    rw [kindAt_of_wordAt word]
    simpa using index.kind_write
  | _, .unknownCall function arguments, p, h => by
    obtain ⟨name, opening, placed⟩ := h.unknownCall
    rw [Tree.end_unknownCall]
    exact .unknownCall (kindAt_of_wordAt name) (kindAt_of_wordAt opening)
      (PlacedAll.reads arguments placed)
  | _, .call function arguments, p, h => by
    obtain ⟨name, opening, placed⟩ := h.call
    rw [Tree.end_call]
    exact .call (functionAt_of_wordAt name rfl) function.name_ne_letName
      function.name_ne_lambdaName (kindAt_of_wordAt opening) (PlacedAll.reads arguments placed)
  | _, .letForm bindings, p, h => by
    obtain ⟨name, opening, placed, closing⟩ := h.letForm
    rw [Tree.end_letForm]
    exact .letForm (functionAt_of_wordAt name rfl) (kindAt_of_wordAt opening)
      (Placed.spans bindings placed (kindAt_of_wordAt closing)) (kindAt_of_wordAt closing)
  | _, .lambdaForm parameter body, p, h => by
    obtain ⟨name, opening, word, comma, placed, closing, -⟩ := h.lambdaForm
    rw [Tree.end_lambdaForm]
    exact .lambdaForm (functionAt_of_wordAt name rfl) (kindAt_of_wordAt opening)
      (kindAt_of_wordAt word) (kindAt_of_wordAt comma) (Placed.spans body placed)
      (kindAt_of_wordAt closing)
  | _, .parenthesized inner, p, h => by
    obtain ⟨opening, placed, closing⟩ := h.parenthesized
    rw [Tree.end_parenthesized]
    exact .parenthesized (kindAt_of_wordAt opening) (Placed.spans inner placed)
      (kindAt_of_wordAt closing)
  | _, .letBody body, p, h => by
    intro closing
    have reads : Reads tokens .expression p (p + body.width) := Placed.spans body h.letBody
    refine .body (reads.not_bindingAt ?_) reads
    change kindAt tokens (p + body.width) = _ at closing
    simp [closing]
  | _, .binding word t rest, p, h => by
    intro closing
    obtain ⟨name, comma, placed, comma', placedRest⟩ := h.binding
    rw [Tree.end_binding] at closing ⊢
    exact .binding ⟨kindAt_of_wordAt name, kindAt_of_wordAt comma⟩ (Placed.spans t placed)
      (kindAt_of_wordAt comma') (Placed.spans rest placedRest closing)

/-- So are trees with commas between them. -/
theorem PlacedAll.reads {closing : TokenKind} : (items : List (Tree .expression)) → {p : Nat} →
    PlacedAll tokens known closing items p →
    Reads tokens (.list closing) p (p + Tree.widthAll items + 1)
  | [], _, h => .emptyList (kindAt_of_wordAt h.next)
  | t :: rest, p, h => by
    obtain ⟨first, others⟩ := h.cons
    have reads : Reads tokens .expression p (p + t.width) := Placed.spans t first
    have readsOthers := PlacedOthers.reads rest others
    rw [Tree.endAll_cons]
    exact .list (first.kindAt_ne h.closes) reads readsOthers (kindAt_of_wordAt others.next)

theorem PlacedOthers.reads {closing : TokenKind} : (items : List (Tree .expression)) →
    {p : Nat} → PlacedOthers tokens known closing items p →
    Reads tokens .others p (p + Tree.widthOthers items)
  | [], p, h => by
    have kind : kindAt tokens p = some closing := kindAt_of_wordAt h.next
    refine .noOthers ?_
    rcases h.closes with rfl | rfl <;> simp [kind]
  | t :: rest, p, h => by
    obtain ⟨comma, first, others⟩ := h.cons
    have reads : Reads tokens .expression (p + 1) (p + 1 + t.width) := Placed.spans t first
    have readsOthers := PlacedOthers.reads rest others
    rw [Tree.endOthers_cons]
    exact .others (kindAt_of_wordAt comma) reads readsOthers

end

theorem Placed.reads {t : Tree .expression} {p : Nat} (h : Placed tokens known t 0 p) :
    Reads tokens .expression p (p + t.width) :=
  Placed.spans t h

mutual

/-- The bodies of the lambdas in a placed tree are placed. -/
theorem Placed.bodies_placed : {phrase : Phrase} → (t : Tree phrase) → {bound p : Nat} →
    Placed tokens known t bound p → ∀ b ∈ t.bodies p, Placed tokens known b.2 0 b.1
  | _, .plain operand, _, _, h => Placed.bodies_placed operand h.plain
  | _, .comparison left _ right, _, _, h => by
    obtain ⟨placedLeft, -, placedRight⟩ := h.comparison
    exact List.forall_mem_append.mpr
      ⟨Placed.bodies_placed left placedLeft, Placed.bodies_placed right placedRight⟩
  | _, .alone operand, _, _, h => Placed.bodies_placed operand h.alone
  | _, .operation left _ _ right, _, _, h => by
    obtain ⟨placedLeft, -, placedRight⟩ := h.operation
    exact List.forall_mem_append.mpr
      ⟨Placed.bodies_placed left placedLeft, Placed.bodies_placed right placedRight⟩
  | _, .negation operand, _, _, h => Placed.bodies_placed operand h.negation.2
  | _, .percent operand, _, _, h => Placed.bodies_placed operand h.percent.1
  | _, .unsigned operand, _, _, h => Placed.bodies_placed operand h.unsigned
  | _, .array items, _, _, h => PlacedAll.bodies_placed items h.array.2
  | _, .unknownCall _ arguments, _, _, h => PlacedAll.bodies_placed arguments h.unknownCall.2.2
  | _, .call _ arguments, _, _, h => PlacedAll.bodies_placed arguments h.call.2.2
  | _, .letForm bindings, _, _, h => Placed.bodies_placed bindings h.letForm.2.2.1
  | _, .lambdaForm _ body, _, _, h => by
    obtain ⟨-, -, -, -, placed, -, -⟩ := h.lambdaForm
    exact List.forall_mem_cons.mpr ⟨placed, Placed.bodies_placed body placed⟩
  | _, .parenthesized inner, _, _, h => Placed.bodies_placed inner h.parenthesized.2.1
  | _, .letBody body, _, _, h => Placed.bodies_placed body h.letBody
  | _, .binding _ t rest, _, _, h => by
    obtain ⟨-, -, placed, -, placedRest⟩ := h.binding
    exact List.forall_mem_append.mpr
      ⟨Placed.bodies_placed t placed, Placed.bodies_placed rest placedRest⟩
  | _, .number _, _, _, _ | _, .string _, _, _, _ | _, .name _, _, _, _
  | _, .reference _ _, _, _, _ => nofun

theorem PlacedAll.bodies_placed {closing : TokenKind} : (items : List (Tree .expression)) →
    {p : Nat} → PlacedAll tokens known closing items p →
    ∀ b ∈ Tree.bodiesAll items p, Placed tokens known b.2 0 b.1
  | [], _, _ => nofun
  | t :: rest, _, h =>
    List.forall_mem_append.mpr
      ⟨Placed.bodies_placed t h.cons.1, PlacedOthers.bodies_placed rest h.cons.2⟩

theorem PlacedOthers.bodies_placed {closing : TokenKind} : (items : List (Tree .expression)) →
    {p : Nat} → PlacedOthers tokens known closing items p →
    ∀ b ∈ Tree.bodiesOthers items p, Placed tokens known b.2 0 b.1
  | [], _, _ => nofun
  | t :: rest, _, h =>
    List.forall_mem_append.mpr
      ⟨Placed.bodies_placed t h.cons.2.1, PlacedOthers.bodies_placed rest h.cons.2.2⟩

end

end

end Quarterly.Formula
