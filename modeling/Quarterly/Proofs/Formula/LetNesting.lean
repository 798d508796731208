import Quarterly.Proofs.Formula.Application
import Quarterly.Proofs.Formula.Observation

/-!
# Bindings one inside the other

A `LET` with several bindings puts each of them in front of those before it, and so do `LET` forms
with one binding each that stand inside each other. Each value, and at last the body, is evaluated
with the same names bound to alike values, so both come to the same and look the same up
(`let_agrees_with_nested`). It does not matter whether names repeat, or that lambdas made on the way
see what is bound when they are called.
-/

namespace Quarterly.Formula

/-! ### The words of both -/

/-- What stands between the commas of a `LET`: names with their values, and the body. -/
def letArguments (bindings : List (String × List Word)) (body : List Word) : List (List Word) :=
  bindings.flatMap (fun b => [[⟨.identifier, b.1⟩], b.2]) ++ [body]

/-- A `LET` with any number of bindings. -/
def letsWords (bindings : List (String × List Word)) (body : List Word) : List Word :=
  callWords letName (letArguments bindings body)

/-- A `LET` for each binding, each in the body of the one before. -/
def nestedWords (bindings : List (String × List Word)) (body : List Word) : List Word :=
  bindings.foldr (fun b inner => letWords b.1 b.2 inner) body

/-- What stands between the parentheses of a `LET`. -/
def bindingWords (bindings : List (String × List Word)) (body : List Word) : List Word :=
  separated (letArguments bindings body)

section

variable {name : String} {value body : List Word} {bindings : List (String × List Word)}

theorem trailing_letArguments :
    trailing (letArguments bindings body) = .mark .comma :: bindingWords bindings body := by
  cases bindings <;> rfl

@[simp] theorem bindingWords_nil : bindingWords [] body = body := List.append_nil body

@[simp] theorem bindingWords_cons : bindingWords ((name, value) :: bindings) body =
    ⟨.identifier, name⟩ :: .mark .comma ::
      (value ++ .mark .comma :: bindingWords bindings body) := by
  rw [← trailing_letArguments]
  rfl

variable {tokens : Array Token} {p : Nat}

theorem writtenAt_letsWords : WrittenAt tokens p (letsWords bindings body) ↔
    wordAt tokens p = some ⟨.function, letName⟩ ∧
      wordAt tokens (p + 1) = some (.mark .leftParen) ∧
      WrittenAt tokens (p + 2) (bindingWords bindings body ++ [.mark .rightParen]) :=
  Iff.rfl

/-- The words of the first binding, one by one. -/
theorem writtenAt_bindingWords_cons {last : List Word} :
    WrittenAt tokens p (bindingWords ((name, value) :: bindings) body ++ last) ↔
      wordAt tokens p = some ⟨.identifier, name⟩ ∧
        wordAt tokens (p + 1) = some (.mark .comma) ∧ WrittenAt tokens (p + 2) value ∧
        wordAt tokens (p + 2 + value.length) = some (.mark .comma) ∧
        WrittenAt tokens (p + 2 + value.length + 1) (bindingWords bindings body ++ last) := by
  simp [Nat.add_assoc]

/-! ### Both are expressions -/

variable (forms : ∀ b ∈ bindings, Forms .expression b.2) (form : Forms .expression body)

include forms form

theorem reads_bindingWords
    (written : WrittenAt tokens p (bindingWords bindings body ++ [.mark .rightParen])) :
    Reads tokens .bindings p (p + (bindingWords bindings body).length) := by
  induction bindings generalizing p with
  | nil =>
    rw [bindingWords_nil] at written ⊢
    obtain ⟨here, closing, -⟩ := writtenAt_append.mp written
    have inner := form tokens p here (.of_mark closing rfl)
    exact .body (inner.not_bindingAt (by simp [kindAt_of_wordAt closing])) inner
  | cons b rest ih =>
    obtain ⟨name, value⟩ := b
    obtain ⟨formValue, forms⟩ := List.forall_mem_cons.mp forms
    obtain ⟨word, next, here, comma, written⟩ := writtenAt_bindingWords_cons.mp written
    have bound := formValue tokens (p + 2) here (.of_mark comma rfl)
    have reads := Reads.binding ⟨kindAt_of_wordAt word, kindAt_of_wordAt next⟩ bound
      (kindAt_of_wordAt comma) (ih forms written)
    convert reads using 1
    simp only [bindingWords_cons, List.length_cons, List.length_append]
    omega

theorem forms_letsWords : Forms .primary (letsWords bindings body) := by
  rintro tokens p written -
  obtain ⟨function, opening, written⟩ := writtenAt_letsWords.mp written
  obtain ⟨-, closing, -⟩ := writtenAt_append.mp written
  have reads := Reads.letForm (functionAt_of_wordAt function rfl) (kindAt_of_wordAt opening)
    (reads_bindingWords forms form written) (kindAt_of_wordAt closing)
  convert reads using 1
  simp only [letsWords, callWords, bindingWords, List.length_cons, List.length_append,
    List.length_nil]
  omega

theorem forms_nestedWords : Forms .expression (nestedWords bindings body) := by
  induction bindings with
  | nil => exact form
  | cons b rest ih =>
    obtain ⟨formValue, forms⟩ := List.forall_mem_cons.mp forms
    exact (forms_letWords formValue (ih forms)).expression

end

/-! ### The same values in the same order -/

section

variable {tokens tokens' : Array Token} {table : Metric.Table Float} {scope scope' : Scope}
  {p p' n n' q q' k k' : Nat} {ls ls' : List (String × Int)} {v v' : Value} {w : Matching}
  {bindings : List (String × List Word)} {body : List Word}

/-- Bindings and a body behind them are evaluated like the `LET` forms with one binding each. -/
theorem Evaluates.alike_nested (forms : ∀ b ∈ bindings, Forms .expression b.2)
    (form : Forms .expression body)
    (h : Evaluates tokens table .bindings scope p n q k ls [v])
    (written : WrittenAt tokens p (bindingWords bindings body ++ [.mark .rightParen]))
    (h' : Evaluates tokens' table .expression scope' p' n' q' k' ls' [v'])
    (written' : WrittenAt tokens' p' (nestedWords bindings body))
    (next' : LooseAt tokens' 0 (p' + (nestedWords bindings body).length))
    (scopes : Scope.Like w (Lambda.Copied tokens tokens') scope scope') (below : w.Below n n') :
    ls = ls' ∧ ∃ w' : Matching, v.Like w' (Lambda.Copied tokens tokens') v' := by
  induction bindings generalizing scope scope' p n q ls p' n' q' ls' w with
  | nil =>
    rw [bindingWords_nil] at written
    obtain ⟨here, closing, -⟩ := writtenAt_append.mp written
    have next : LooseAt tokens 0 (p + body.length) := .of_mark closing rfl
    have inner := h.of_body (form tokens p here next) (kindAt_of_wordAt closing)
    obtain ⟨-, same, w', -, -, _ | ⟨like, -⟩⟩ := inner.alike h' .expression scopes below
      (copied_of_writtenAt here written' next next')
    exact ⟨same, w', like⟩
  | cons b rest ih =>
    obtain ⟨name, value⟩ := b
    have reads' := forms_nestedWords forms form tokens' p' written' next'
    obtain ⟨formValue, forms⟩ := List.forall_mem_cons.mp forms
    have formInner := forms_nestedWords forms form
    obtain ⟨word, next, here, comma, written⟩ := writtenAt_bindingWords_cons.mp written
    obtain ⟨function, -, word', comma', here', second, there, closing⟩ :=
      writtenAt_letWords.mp written'
    -- The value of the first binding is the same in both, at the same time.
    have reads := formValue tokens (p + 2) here (.of_mark comma rfl)
    obtain ⟨u, m, l, others, rfl, first, behind⟩ :=
      h.of_binding word (kindAt_of_wordAt next) reads (kindAt_of_wordAt comma)
    obtain ⟨r', bindings'⟩ := h'.of_letForm
      (forms_letWords formValue formInner tokens' p' written' next') next'
      (functionAt_of_wordAt function rfl)
    have readsValue' := formValue tokens' (p' + 4) here' (.of_mark second rfl)
    obtain ⟨u', m', l', others', rfl, first', behind'⟩ :=
      bindings'.of_binding word' (kindAt_of_wordAt comma') readsValue' (kindAt_of_wordAt second)
    obtain ⟨-, rfl, w₁, le, below₁, _ | ⟨like, -⟩⟩ := first.alike first' .expression scopes below
      (copied_of_writtenAt here here' (.of_mark comma rfl) (.of_mark second rfl))
    -- What is left is evaluated with that value bound in front.
    have looseInner : LooseAt tokens' 0 _ := .of_mark closing rfl
    have inner' := behind'.of_body (formInner tokens' _ there looseInner)
      (kindAt_of_wordAt closing)
    obtain ⟨rfl, w', result⟩ :=
      ih forms behind written inner' there looseInner ((scopes.mono le).cons like) below₁
    exact ⟨rfl, w', result⟩

end

/-! ### Whole formulas -/

/-- The metrics and indexes that were looked up, as a trace shows them. -/
def Journal.queries (j : Journal) : List (String × Int) :=
  j.substitutions.toList.map fun x => (x.metric, x.found.index)

/-- The metrics and indexes that a formula looks up, in order. -/
def lookUps (c : Context) (scope : Scope) : List (String × Int) :=
  (evaluate { c with tracing := true } .live scope).journal.queries

theorem Evaluates.of_evaluate_traced {c : Context} {scope : Scope} {v : Value}
    (tracing : c.tracing = true) (h : (evaluate c .live scope).outcome = .ok v) :
    ∃ q k, Evaluates c.tokens c.table .expression scope 0
      (Value.itemsIdentityBound (scope.map (·.2))) q k (evaluate c .live scope).journal.queries
      [v] := by
  obtain ⟨s, run, whole⟩ := exists_run_of_value h
  obtain ⟨ls, looked, value⟩ := Finds.readAll c.maxDepth.toNat _ _ _ rfl rfl run
  obtain rfl : s.journal.queries = ls := looked tracing
  rw [whole]
  exact ⟨s.position, s.nextIdentity, value⟩

/-- A formula that comes back has looked up the same whether it was traced or not. -/
theorem Evaluates.of_evaluate_lookUps {c : Context} {scope : Scope} {v : Value}
    (h : (evaluate c .live scope).outcome = .ok v) :
    ∃ q k, Evaluates c.tokens c.table .expression scope 0
      (Value.itemsIdentityBound (scope.map (·.2))) q k (lookUps c scope) [v] := by
  let traced : Context := { c with tracing := true }
  have seen : (evaluate traced .live scope).seen = (evaluate c .live scope).seen := by
    rw [← evaluate_quiet, ← evaluate_quiet]
    rfl
  exact Evaluates.of_evaluate_traced (c := traced) rfl ((congrArg Evaluation.outcome seen).trans h)

/-- A `LET` with several bindings and the `LET` forms with one binding each inside each other come
to the same, apart from identities, and look up the same metrics and indexes in the same order,
whatever else the two formulas are evaluated with. -/
theorem let_agrees_with_nested {c c' : Context} {scope : Scope}
    {bindings : List (String × List Word)} {body : List Word} {v v' : Value}
    (table : c'.table = c.table) (keeps : Keeps (fun _ => False) scope)
    (expressions : ∀ b ∈ bindings, IsExpression b.2) (isBody : IsExpression body)
    (flat : c.tokens.toList.map Token.word = letsWords bindings body ++ [.mark .endMark])
    (nested : c'.tokens.toList.map Token.word = nestedWords bindings body ++ [.mark .endMark])
    (h : (evaluate c .live scope).outcome = .ok v)
    (h' : (evaluate c' .live scope).outcome = .ok v') :
    v.content c.tokens = v'.content c'.tokens ∧ lookUps c scope = lookUps c' scope := by
  have forms : ∀ b ∈ bindings, Forms .expression b.2 := fun b mem => (expressions b mem).forms
  have form : Forms .expression body := isBody.forms
  obtain ⟨q, k, evaluates⟩ := Evaluates.of_evaluate_lookUps h
  obtain ⟨q', k', evaluates'⟩ := Evaluates.of_evaluate_lookUps h'
  rw [table] at evaluates'
  obtain ⟨row, last, -⟩ := writtenAt_append.mp (writtenAt_of_drop (p := 0) flat)
  obtain ⟨row', last', -⟩ := writtenAt_append.mp (writtenAt_of_drop (p := 0) nested)
  have next : LooseAt c.tokens 0 (0 + (letsWords bindings body).length) := .of_mark last rfl
  have next' : LooseAt c'.tokens 0 (0 + (nestedWords bindings body).length) := .of_mark last' rfl
  obtain ⟨function, -, inside⟩ := writtenAt_letsWords.mp row
  obtain ⟨r, bound⟩ := evaluates.of_letForm (forms_letsWords forms form c.tokens 0 row next) next
    (functionAt_of_wordAt function rfl)
  obtain ⟨same, w, like⟩ := bound.alike_nested forms form inside evaluates' row' next'
    (.of_noLambda keeps) (Matching.below_upTo _)
  exact ⟨like.content_eq, same⟩

/-- A lambda is bound before the name in its body is bound again, to a metric at first. -/
theorem let_agrees_with_nested_rebinding :
    let c := unmeasured "LET(a,Sales,f,LAMBDA(x,x+a),a,2,MAP(\x7ba,Cash[Q2]\x7d,f))"
    let c' := unmeasured "LET(a,Sales,LET(f,LAMBDA(x,x+a),LET(a,2,MAP(\x7ba,Cash[Q2]\x7d,f))))"
    Keeps (fun _ => False) [] ∧
      ∃ v v', (evaluate c .live []).outcome = .ok v ∧ (evaluate c' .live []).outcome = .ok v' ∧
        v.content c.tokens = v'.content c'.tokens ∧
        lookUps c [] = [("Sales", 1), ("Cash", 2)] ∧ lookUps c' [] = lookUps c [] := by
  intro c c'
  let sales : List Word := [⟨.identifier, "Sales"⟩]
  let sum : List Word := [⟨.identifier, "x"⟩, .operator "+", ⟨.identifier, "a"⟩]
  let items : List (List Word) := [[⟨.identifier, "a"⟩],
    [⟨.identifier, "Cash"⟩, .mark .leftBracket, ⟨.identifier, "Q2"⟩, .mark .rightBracket]]
  let bindings : List (String × List Word) :=
    [("a", sales), ("f", lambdaWords "x" sum), ("a", [⟨.number, "2"⟩])]
  let body : List Word := mapWords (arrayWords items) [⟨.identifier, "f"⟩]
  have expressions : ∀ b ∈ bindings, IsExpression b.2 := by
    refine List.forall_mem_cons.mpr ⟨?_, List.forall_mem_cons.mpr
      ⟨?_, List.forall_mem_singleton.mpr ?_⟩⟩
    · exact isExpression_of_stopOf "Sales" (by decide +kernel) (by decide +kernel)
    · exact isExpression_of_stopOf "LAMBDA(x,x+a)" (by decide +kernel) (by decide +kernel)
    · exact isExpression_of_stopOf "2" (by decide +kernel) (by decide +kernel)
  -- Without the bindings the body can only be skipped.
  have isBody : IsExpression body := by
    obtain ⟨u, s, run, ends⟩ := ok_of_stopOf
      (show stopOf (expression 3 .dry []) (unmeasured "MAP(\x7ba,Cash[Q2]\x7d,f)") {} =
        some body.length by decide +kernel)
    exact ⟨_, by decide +kernel, ends ▸ Reads.of_ok run⟩
  have table : c'.table = c.table := rfl
  have flat : c.tokens.toList.map Token.word = letsWords bindings body ++ [.mark .endMark] := by
    decide +kernel
  have nested : c'.tokens.toList.map Token.word =
      nestedWords bindings body ++ [.mark .endMark] := by
    decide +kernel
  obtain ⟨v, h⟩ : ∃ v, (evaluate c .live []).outcome = .ok v := exists_value (by decide +kernel)
  obtain ⟨v', h'⟩ : ∃ v, (evaluate c' .live []).outcome = .ok v := exists_value (by decide +kernel)
  obtain ⟨content, same⟩ := let_agrees_with_nested table .nil expressions isBody flat nested h h'
  exact ⟨.nil, v, v', h, h', content, by decide +kernel, same.symm⟩

end Quarterly.Formula
