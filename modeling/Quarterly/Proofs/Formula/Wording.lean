import Quarterly.Proofs.Formula.Relocation

/-!
# The words of arrays, calls and bindings

Arrays and calls are put together from the words of their parts. What is an expression as a formula
of its own (`IsExpression`) is one wherever nothing behind it continues it, and so is what is made
of expressions (`Forms`).
-/

namespace Quarterly.Formula

/-! ### Words of forms -/

/-- Stretches of words with a comma before each. -/
def trailing (items : List (List Word)) : List Word := items.flatMap (.mark .comma :: ·)

/-- Stretches of words with commas between them. -/
def separated : List (List Word) → List Word
  | [] => []
  | ws :: rest => ws ++ trailing rest

def arrayWords (items : List (List Word)) : List Word :=
  .mark .leftBrace :: (separated items ++ [.mark .rightBrace])

def callWords (function : String) (arguments : List (List Word)) : List Word :=
  ⟨.function, function⟩ :: .mark .leftParen :: (separated arguments ++ [.mark .rightParen])

def lambdaWords (parameter : String) (body : List Word) : List Word :=
  callWords lambdaName [[⟨.identifier, parameter⟩], body]

/-- A `LET` with one binding. -/
def letWords (name : String) (value body : List Word) : List Word :=
  callWords letName [[⟨.identifier, name⟩], value, body]

def mapWords (array lambda : List Word) : List Word := callWords mapName [array, lambda]

@[simp] theorem trailing_nil : trailing [] = [] := rfl

@[simp] theorem trailing_cons {ws : List Word} {rest : List (List Word)} :
    trailing (ws :: rest) = .mark .comma :: (ws ++ trailing rest) := rfl

@[simp] theorem separated_nil : separated [] = [] := rfl

@[simp] theorem separated_cons {ws : List Word} {rest : List (List Word)} :
    separated (ws :: rest) = ws ++ trailing rest := rfl

section

variable {tokens : Array Token} {p q : Nat} {ws : List Word} {items : List (List Word)}
  {closing : TokenKind}

theorem WrittenAt.wordAt_add {i : Nat} (h : WrittenAt tokens p ws) (lt : i < ws.length) :
    wordAt tokens (p + i) = ws[i]? := by
  induction ws generalizing p i with
  | nil => cases lt
  | cons w ws ih =>
    cases i with
    | zero => exact h.1
    | succ i =>
      have word := ih h.2 (Nat.lt_of_succ_lt_succ lt)
      rwa [Nat.add_right_comm] at word

/-- What ends a list does not continue its last item. -/
def TokenKind.Closes (kind : TokenKind) : Prop := kind = .rightBrace ∨ kind = .rightParen

theorem LooseAt.of_closing {bound : Nat} (closes : closing.Closes)
    (h : wordAt tokens p = some (.mark closing)) : LooseAt tokens bound p := by
  obtain rfl | rfl := closes <;> exact .of_mark h rfl

theorem TokenKind.Closes.not_starts (closes : closing.Closes) : ¬ closing.Starts := by
  obtain rfl | rfl := closes <;> exact id

theorem TokenKind.Closes.ne_comma (closes : closing.Closes) : closing ≠ .comma := by
  obtain rfl | rfl := closes <;> decide

/-- An item is followed by a comma or the end of its list. -/
theorem LooseAt.of_trailing (closes : closing.Closes)
    (h : WrittenAt tokens p (trailing items ++ [.mark closing])) : LooseAt tokens 0 p := by
  cases items with
  | nil => exact .of_closing closes h.1
  | cons ws rest => exact .of_mark h.1 rfl

/-! ### Where the words form a phrase -/

/-- Some words form a phrase wherever they stand, if what is behind them does not continue it. -/
def Forms (phrase : Phrase) (ws : List Word) : Prop :=
  ∀ (tokens : Array Token) (p : Nat), WrittenAt tokens p ws → LooseAt tokens 0 (p + ws.length) →
    Reads tokens phrase p (p + ws.length)

/-- Some words are an expression: a formula of nothing else is read as one. -/
def IsExpression (ws : List Word) : Prop :=
  ∃ tokens : Array Token, tokens.toList.map Token.word = ws ++ [.mark .endMark] ∧
    Reads tokens .expression 0 ws.length

theorem IsExpression.forms (h : IsExpression ws) : Forms .expression ws := by
  obtain ⟨alone, written, reads⟩ := h
  intro tokens p here next
  obtain ⟨there, last, -⟩ := writtenAt_append.mp (writtenAt_of_drop (p := 0) written)
  rw [Nat.zero_add] at last
  refine reads.copied ⟨fun i lt => ?_, .inr ⟨.of_mark last rfl, next⟩⟩ rfl nofun
  have within : i < ws.length := by omega
  rw [there.wordAt_add within, here.wordAt_add within]

/-! A primary that nothing continues is an expression. -/

theorem Reads.unary_of_primary (h : Reads tokens .primary p q) (next : LooseAt tokens 0 q) :
    Reads tokens .unary p q :=
  .unsigned h.noSign h (next.mono (Nat.zero_le 3)).noPercent

theorem Reads.level_of_primary {rank : Rank} (h : Reads tokens .primary p q) (next : LooseAt tokens 0 q) :
    Reads tokens (.level rank) p q := by
  have ends (rank : Rank) : Reads tokens (.rest rank) q q :=
    .restEnd (next.mono (Nat.zero_le rank.bound)).noOperator
  have product : Reads tokens (.level .product) p q := .level (h.unary_of_primary next) (ends .product)
  cases rank with
  | sum => exact .level product (ends .sum)
  | product => exact product

theorem Reads.expression_of_primary (h : Reads tokens .primary p q) (next : LooseAt tokens 0 q) :
    Reads tokens .expression p q :=
  .plain (h.level_of_primary next) next.noComparison

theorem Forms.expression (h : Forms .primary ws) : Forms .expression ws :=
  fun tokens p written next => (h tokens p written next).expression_of_primary next

/-! ### Forms of expressions -/

theorem reads_trailing (closes : closing.Closes) (forms : ∀ ws ∈ items, Forms .expression ws)
    (written : WrittenAt tokens p (trailing items ++ [.mark closing])) :
    Reads tokens .others p (p + (trailing items).length) := by
  induction items generalizing p with
  | nil =>
    have kind : kindAt tokens p = some closing := kindAt_of_wordAt written.1
    exact .noOthers fun comma => closes.ne_comma (Option.some.inj (kind.symm.trans comma))
  | cons ws rest ih =>
    obtain ⟨form, forms⟩ := List.forall_mem_cons.mp forms
    simp only [trailing_cons, List.cons_append, List.append_assoc, writtenAt_cons] at written
    obtain ⟨comma, written⟩ := written
    obtain ⟨here, written⟩ := writtenAt_append.mp written
    have item := form tokens (p + 1) here (.of_trailing closes written)
    have others := ih forms written
    have reads := Reads.others (kindAt_of_wordAt comma) item others
    convert reads using 1
    simp only [trailing_cons, List.length_cons, List.length_append]
    omega

theorem reads_separated (closes : closing.Closes) (forms : ∀ ws ∈ items, Forms .expression ws)
    (written : WrittenAt tokens p (separated items ++ [.mark closing])) :
    Reads tokens (.list closing) p (p + (separated items).length + 1) := by
  cases items with
  | nil => exact .emptyList (kindAt_of_wordAt written.1)
  | cons ws rest =>
    obtain ⟨form, forms⟩ := List.forall_mem_cons.mp forms
    simp only [separated_cons, List.append_assoc] at written
    obtain ⟨here, written⟩ := writtenAt_append.mp written
    have item := form tokens p here (.of_trailing closes written)
    have others := reads_trailing closes forms written
    obtain ⟨-, last, -⟩ := writtenAt_append.mp written
    have reads := Reads.list (item.kindAt_ne trivial closes.not_starts) item others
      (kindAt_of_wordAt last)
    convert reads using 1
    simp only [separated_cons, List.length_append]
    omega

theorem forms_arrayWords (forms : ∀ ws ∈ items, Forms .expression ws) :
    Forms .primary (arrayWords items) := by
  rintro tokens p ⟨opening, written⟩ -
  have list := reads_separated (.inl rfl) forms written
  have reads := Reads.array (kindAt_of_wordAt opening) list
  convert reads using 1
  simp only [arrayWords, List.length_cons, List.length_append, List.length_nil]
  omega

theorem forms_callWords {function : String} (noLet : function ≠ letName)
    (noLambda : function ≠ lambdaName) (forms : ∀ ws ∈ items, Forms .expression ws) :
    Forms .primary (callWords function items) := by
  rintro tokens p ⟨name, opening, written⟩ -
  have list := reads_separated (.inr rfl) forms written
  have reads := Reads.call (functionAt_of_wordAt name rfl) noLet noLambda
    (kindAt_of_wordAt opening) list
  convert reads using 1
  simp only [callWords, List.length_cons, List.length_append, List.length_nil]
  omega

end

section

variable {tokens : Array Token} {p : Nat} {name : String} {value body : List Word}

/-- The words of a lambda, one by one. -/
theorem writtenAt_lambdaWords : WrittenAt tokens p (lambdaWords name body) ↔
    wordAt tokens p = some ⟨.function, lambdaName⟩ ∧
      wordAt tokens (p + 1) = some (.mark .leftParen) ∧
      wordAt tokens (p + 2) = some ⟨.identifier, name⟩ ∧
      wordAt tokens (p + 3) = some (.mark .comma) ∧ WrittenAt tokens (p + 4) body ∧
      wordAt tokens (p + 4 + body.length) = some (.mark .rightParen) := by
  simp [lambdaWords, callWords, Nat.add_assoc]

/-- The words of a `LET`, one by one. -/
theorem writtenAt_letWords : WrittenAt tokens p (letWords name value body) ↔
    wordAt tokens p = some ⟨.function, letName⟩ ∧
      wordAt tokens (p + 1) = some (.mark .leftParen) ∧
      wordAt tokens (p + 2) = some ⟨.identifier, name⟩ ∧
      wordAt tokens (p + 3) = some (.mark .comma) ∧ WrittenAt tokens (p + 4) value ∧
      wordAt tokens (p + 4 + value.length) = some (.mark .comma) ∧
      WrittenAt tokens (p + 4 + value.length + 1) body ∧
      wordAt tokens (p + 4 + value.length + 1 + body.length) = some (.mark .rightParen) := by
  simp [letWords, callWords, Nat.add_assoc]

theorem forms_lambdaWords (form : Forms .expression body) :
    Forms .primary (lambdaWords name body) := by
  intro tokens p written _
  obtain ⟨function, opening, parameter, comma, here, closing⟩ := writtenAt_lambdaWords.mp written
  have inner := form tokens (p + 4) here (.of_mark closing rfl)
  have reads := Reads.lambdaForm (functionAt_of_wordAt function rfl) (kindAt_of_wordAt opening)
    (kindAt_of_wordAt parameter) (kindAt_of_wordAt comma) inner (kindAt_of_wordAt closing)
  convert reads using 1
  simp [lambdaWords, callWords]
  omega

theorem forms_letWords (formValue : Forms .expression value) (formBody : Forms .expression body) :
    Forms .primary (letWords name value body) := by
  intro tokens p written _
  obtain ⟨function, opening, word, next, here, comma, there, closing⟩ :=
    writtenAt_letWords.mp written
  have bound := formValue tokens (p + 4) here (.of_mark comma rfl)
  have inner := formBody tokens _ there (.of_mark closing rfl)
  have noBinding := inner.not_bindingAt (by simp [kindAt_of_wordAt closing])
  have bindings := Reads.binding ⟨kindAt_of_wordAt word, kindAt_of_wordAt next⟩ bound
    (kindAt_of_wordAt comma) (.body noBinding inner)
  have reads := Reads.letForm (functionAt_of_wordAt function rfl) (kindAt_of_wordAt opening)
    bindings (kindAt_of_wordAt closing)
  convert reads using 1
  simp [letWords, callWords]
  omega

variable {items : List (List Word)} (forms : ∀ ws ∈ items, Forms .expression ws)
  (form : Forms .expression body)

include forms form

theorem forms_mapArguments :
    ∀ ws ∈ [arrayWords items, lambdaWords name body], Forms .expression ws := by
  simp only [List.forall_mem_cons, List.not_mem_nil, false_implies, implies_true, and_true]
  exact ⟨(forms_arrayWords forms).expression, (forms_lambdaWords form).expression⟩

theorem forms_mapWords : Forms .primary (mapWords (arrayWords items) (lambdaWords name body)) :=
  forms_callWords (by decide) (by decide) (forms_mapArguments forms form)

/-- A `LET` for each value, with the same name and the same body. -/
theorem forms_lettings : ∀ ws ∈ items.map (letWords name · body), Forms .expression ws :=
  List.forall_mem_map.mpr fun value mem => (forms_letWords (forms value mem) form).expression

end

end Quarterly.Formula
