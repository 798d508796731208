import Mathlib.Logic.Relation
import Quarterly.Proofs.Formula.Sound
import Quarterly.Proofs.Formula.Wording

/-!
# Applying a lambda

`MAP` calls a lambda with each item of an array: the body is read where the lambda was written, with
the parameter bound to the item. A `LET` binds a name to a value and reads the body where it stands.
Both evaluate the same words with the same binding, so an array of `LET` forms with the body in each
has the items that `MAP` has (`map_agrees_with_let`). Identities are given away in another order, and
the lambdas among the items are written elsewhere; the contents are the same.
-/

namespace Quarterly.Formula

/-! ### Contents -/

/-- What is in a value, apart from identities and from where its lambdas are written. -/
inductive Content where
  | scalar (value : Value)
  | array (items : List Content)
  | lambda (parameter : String) (body : List Word)

/-- The words of the body of a lambda. -/
def Lambda.body (tokens : Array Token) (f : Lambda) : List Word :=
  ((tokens.toList.take f.stop).drop f.start).map Token.word

mutual

def Value.content (tokens : Array Token) : Value → Content
  | .array _ items => .array (Value.contents tokens items)
  | .lambda _ f => .lambda f.parameter (f.body tokens)
  | v => .scalar v

def Value.contents (tokens : Array Token) : List Value → List Content
  | [] => []
  | v :: rest => v.content tokens :: Value.contents tokens rest

end

section

variable {tokens tokens' : Array Token}

theorem Value.contents_eq_map (items : List Value) :
    Value.contents tokens items = items.map (Value.content tokens) := by
  induction items with
  | nil => rfl
  | cons v rest ih => rw [Value.contents, ih, List.map_cons]

theorem Value.content_scalar {v : Value} (h : v.IsScalar) : v.content tokens = .scalar v := by
  cases v with
  | array | lambda => exact h.elim
  | _ => rfl

theorem Lambda.getElem?_body {f : Lambda} (i : Nat) :
    (f.body tokens)[i]? = if f.start + i < f.stop then wordAt tokens (f.start + i) else none := by
  unfold Lambda.body wordAt
  rw [List.getElem?_map, List.getElem?_drop, List.getElem?_take, Array.getElem?_toList]
  split <;> rfl

theorem Lambda.Copied.body_eq {f f' : Lambda} (h : Lambda.Copied tokens tokens' f f') :
    f.body tokens = f'.body tokens' := by
  obtain ⟨copied, stop⟩ := h
  apply List.ext_getElem?
  intro i
  rw [Lambda.getElem?_body, Lambda.getElem?_body, stop]
  by_cases within : f.start + i < f.stop
  · rw [if_pos within, if_pos (by omega), copied.words i within]
  · rw [if_neg within, if_neg (by omega)]

/-- Values are alike in content, wherever the lambdas are copied from and to. -/
theorem Value.Like.content_eq {w : Matching} {u v : Value} :
    u.Like w (Lambda.Copied tokens tokens') v → u.content tokens = v.content tokens'
  | .scalar h => by rw [Value.content_scalar h, Value.content_scalar h]
  | .lambda _ parameter h => by rw [Value.content, Value.content, parameter, h.body_eq]
  | @Value.Like.array _ _ _ _ items items' _ length h => by
    have same : ∀ pair ∈ items.zip items', pair.1.content tokens = pair.2.content tokens' :=
      fun pair mem => content_eq (h pair mem)
    have contents : items.map (Value.content tokens) = items'.map (Value.content tokens') := by
      rw [← List.forall₂_eq_eq_eq, List.forall₂_map_left_iff, List.forall₂_map_right_iff]
      exact List.forall₂_iff_zip.mpr ⟨length, fun mem => same _ mem⟩
    rw [Value.content, Value.content, Value.contents_eq_map, Value.contents_eq_map, contents]

end

/-! ### Values that were there before -/

theorem Value.identityBound_le_of_mem {v : Value} {items : List Value} (h : v ∈ items) :
    v.identityBound ≤ Value.itemsIdentityBound items := by
  induction items with
  | nil => cases h
  | cons u rest ih =>
    rw [Value.itemsIdentityBound]
    obtain rfl | h := List.mem_cons.mp h
    · exact Nat.le_max_left _ _
    · exact Nat.le_trans (ih h) (Nat.le_max_right _ _)

/-- A value without lambdas is alike to itself. -/
theorem Value.Like.of_noLambda {L : Lambda → Lambda → Prop} {n : Nat} {v : Value} :
    v.EveryLambda (fun _ => False) → v.identityBound ≤ n → v.Like (.upTo n) L v
  | .scalar h, _ => .scalar h
  | .lambda h, _ => h.elim
  | @Value.EveryLambda.array _ identity items h, bound => by
    rw [Value.identityBound] at bound
    have like : ∀ v ∈ items, v.Like (.upTo n) L v := fun v mem =>
      have within := Value.identityBound_le_of_mem mem
      of_noLambda (h v mem) (by omega)
    exact .newArray ⟨rfl, by omega⟩ (List.forall₂_same.mpr like)

theorem Scope.Like.of_noLambda {L : Lambda → Lambda → Prop} {scope : Scope}
    (keeps : Keeps (fun _ => False) scope) :
    Scope.Like (.upTo (Value.itemsIdentityBound (scope.map (·.2)))) L scope scope := by
  refine List.forall₂_same.mpr fun b mem => ⟨rfl, .of_noLambda (keeps b mem) ?_⟩
  exact Value.identityBound_le_of_mem (List.mem_map_of_mem mem)

/-! ### Evaluations of given words -/

theorem forall₂_comp {α β γ : Type} {R : α → β → Prop} {S : β → γ → Prop} {as : List α}
    {bs : List β} {cs : List γ} (h : List.Forall₂ R as bs) (h' : List.Forall₂ S bs cs) :
    List.Forall₂ (Relation.Comp R S) as cs := by
  induction h generalizing cs with
  | nil =>
    cases h'
    exact .nil
  | cons first _ ih =>
    cases h' with
    | cons second rest => exact .cons ⟨_, first, second⟩ (ih rest)

section

variable (tokens : Array Token) (table : Metric.Table Float)

/-- The words are evaluated somewhere, with identities from `n` up to `k`. -/
def Yields (scope : Scope) (n k : Nat) (ws : List Word) (v : Value) : Prop :=
  ∃ p m m' ls, n ≤ m ∧ m' ≤ k ∧ WrittenAt tokens p ws ∧ LooseAt tokens 0 (p + ws.length) ∧
    Evaluates tokens table .expression scope p m (p + ws.length) m' ls [v]

/-- A body is evaluated with a name bound to what some words are evaluated to before. -/
def Applies (scope : Scope) (name : String) (body : List Word) (n : Nat) (value : List Word)
    (u : Value) : Prop :=
  ∃ v k m, Yields tokens table scope n k value v ∧
    Yields tokens table ((name, v) :: scope) k m body u

end

section

variable {tokens : Array Token} {table : Metric.Table Float} {scope : Scope} {p q r n k : Nat}
  {ls : List (String × Int)} {v : Value} {vs : List Value} {ws : List Word}
  {items : List (List Word)} {closing : TokenKind} {name : String}

theorem Yields.mono {n' k' : Nat} (h : Yields tokens table scope n k ws v) (le : n' ≤ n)
    (le' : k ≤ k') : Yields tokens table scope n' k' ws v := by
  obtain ⟨p, m, m', ls, first, last, rest⟩ := h
  exact ⟨p, m, m', ls, Nat.le_trans le first, Nat.le_trans last le', rest⟩

theorem Evaluates.yields (h : Evaluates tokens table .expression scope p n q k ls [v])
    (form : Forms .expression ws) (written : WrittenAt tokens p ws)
    (next : LooseAt tokens 0 (p + ws.length)) :
    q = p + ws.length ∧ Yields tokens table scope n k ws v := by
  have ends : q = p + ws.length := Reads.unique h.reads (form tokens p written next)
  subst ends
  exact ⟨rfl, p, n, k, ls, Nat.le_refl n, Nat.le_refl k, written, next, h⟩

/-! Lists, item by item. -/

theorem Evaluates.yields_trailing (h : Evaluates tokens table (.others closing) scope p n q k ls vs)
    (closes : closing.Closes) (forms : ∀ ws ∈ items, Forms .expression ws)
    (written : WrittenAt tokens p (trailing items ++ [.mark closing])) :
    List.Forall₂ (Yields tokens table scope n k) items vs := by
  induction items generalizing p n ls vs with
  | nil =>
    have kind : kindAt tokens p = some closing := kindAt_of_wordAt written.1
    cases h with
    | noOthers => exact .nil
    | others next => exact absurd (Option.some.inj (kind.symm.trans next)) closes.ne_comma
  | cons ws rest ih =>
    obtain ⟨form, forms⟩ := List.forall_mem_cons.mp forms
    simp only [trailing_cons, List.cons_append, List.append_assoc, writtenAt_cons] at written
    obtain ⟨comma, written⟩ := written
    obtain ⟨here, written⟩ := writtenAt_append.mp written
    cases h with
    | noOthers next => exact absurd (kindAt_of_wordAt comma) next
    | others _ item others =>
      obtain ⟨rfl, first⟩ := item.yields form here (.of_trailing closes written)
      have behind := ih others forms written
      refine .cons (first.mono (Nat.le_refl n) others.identity_le) ?_
      exact behind.imp fun _ _ h => h.mono item.identity_le (Nat.le_refl k)

theorem Evaluates.yields_separated (h : Evaluates tokens table (.list closing) scope p n q k ls vs)
    (closes : closing.Closes) (forms : ∀ ws ∈ items, Forms .expression ws)
    (written : WrittenAt tokens p (separated items ++ [.mark closing])) :
    List.Forall₂ (Yields tokens table scope n k) items vs := by
  cases items with
  | nil =>
    cases h with
    | emptyList => exact .nil
    | list notEmpty => exact absurd (kindAt_of_wordAt written.1) notEmpty
  | cons ws rest =>
    obtain ⟨form, forms⟩ := List.forall_mem_cons.mp forms
    simp only [separated_cons, List.append_assoc] at written
    obtain ⟨here, written⟩ := writtenAt_append.mp written
    have reads := form tokens p here (.of_trailing closes written)
    cases h with
    | emptyList kind => exact absurd kind (reads.kindAt_ne trivial closes.not_starts)
    | list _ item others =>
      obtain ⟨rfl, first⟩ := item.yields form here (.of_trailing closes written)
      have behind := others.yields_trailing closes forms written
      refine .cons (first.mono (Nat.le_refl n) others.identity_le) ?_
      exact behind.imp fun _ _ h => h.mono item.identity_le (Nat.le_refl k)

/-! An expression that is no more than a primary. -/

theorem Evaluates.of_level {rank : Rank} (h : Evaluates tokens table (.level rank) scope p n q k ls [v])
    (reads : Reads tokens rank.operand p r) (next : LooseAt tokens 0 r) :
    q = r ∧ Evaluates tokens table rank.task scope p n q k ls [v] := by
  cases h with
  | level first rest =>
    obtain rfl := (Rank.reads_task.mp first.reads).unique reads
    have ends := (next.mono (Nat.zero_le rank.bound)).noOperator
    cases rest with
    | restEnd =>
      rw [List.append_nil]
      exact ⟨rfl, first⟩
    | restMore more => cases ends.symm.trans more

theorem Evaluates.of_unary (h : Evaluates tokens table .unary scope p n q k ls [v])
    (reads : Reads tokens .primary p r) (next : LooseAt tokens 0 r) :
    q = r ∧ ∃ kind, Evaluates tokens table (.primary kind) scope p n q k ls [v] := by
  cases h with
  | negation sign => exact absurd sign reads.noSign
  | percent _ operand sign =>
    obtain rfl := Reads.unique operand.reads reads
    exact absurd sign (next.mono (Nat.zero_le 3)).noPercent
  | unsigned _ operand => exact ⟨Reads.unique operand.reads reads, _, operand⟩

theorem Evaluates.of_expression (h : Evaluates tokens table .expression scope p n q k ls [v])
    (reads : Reads tokens .primary p r) (next : LooseAt tokens 0 r) :
    ∃ kind, Evaluates tokens table (.primary kind) scope p n q k ls [v] := by
  cases h with
  | plain sum _ =>
    obtain ⟨rfl, product⟩ := sum.of_level (reads.level_of_primary next) next
    obtain ⟨-, unary⟩ := Evaluates.of_level product (reads.unary_of_primary next) next
    exact (Evaluates.of_unary unary reads next).2
  | comparison left more =>
    obtain rfl := Reads.unique left.reads (reads.level_of_primary next)
    cases next.noComparison.symm.trans more

/-! A `LET`, binding by binding. -/

theorem Evaluates.of_letForm (h : Evaluates tokens table .expression scope p n q k ls [v])
    (reads : Reads tokens .primary p r) (next : LooseAt tokens 0 r)
    (function : functionAt tokens p = some letName) :
    ∃ r, Evaluates tokens table .bindings scope (p + 2) n r k ls [v] := by
  obtain ⟨kind, form⟩ := h.of_expression reads next
  cases form.kindAt_primary.symm.trans (kindAt_of_functionAt function)
  cases form with
  | call other _ noLet => exact absurd (Option.some.inj (other.symm.trans function)) noLet
  | map other | lambdaForm other => exact absurd (other.symm.trans function) (by decide)
  | letForm _ _ bindings => exact ⟨_, bindings⟩

theorem Evaluates.of_body (h : Evaluates tokens table .bindings scope p n q k ls [v])
    (reads : Reads tokens .expression p r) (closing : kindAt tokens r = some .rightParen) :
    Evaluates tokens table .expression scope p n r k ls [v] := by
  cases h with
  | body _ inner =>
    obtain rfl := Reads.unique inner.reads reads
    exact inner
  | binding word next | lastBinding word next =>
    exact absurd ⟨kindAt_of_wordAt word, next⟩ (reads.not_bindingAt (by simp [closing]))

/-- The first of some bindings is evaluated, and the others with its name bound to its value. -/
theorem Evaluates.of_binding (h : Evaluates tokens table .bindings scope p n q k ls [v])
    (word : wordAt tokens p = some ⟨.identifier, name⟩)
    (next : kindAt tokens (p + 1) = some .comma) (reads : Reads tokens .expression (p + 2) r)
    (comma : kindAt tokens r = some .comma) : ∃ u m l l', ls = l ++ l' ∧
      Evaluates tokens table .expression scope (p + 2) n r m l [u] ∧
      Evaluates tokens table .bindings ((name, u) :: scope) (r + 1) m q k l' [v] := by
  cases h with
  | body noBinding => exact absurd ⟨kindAt_of_wordAt word, next⟩ noBinding
  | lastBinding _ _ value noComma =>
    obtain rfl := Reads.unique value.reads reads
    exact absurd comma noComma
  | binding other _ value _ rest =>
    cases other.symm.trans word
    obtain rfl := Reads.unique value.reads reads
    exact ⟨_, _, _, _, rfl, value, rest⟩

theorem Yields.primary (h : Yields tokens table scope n k ws v) (form : Forms .primary ws) :
    ∃ p q m m' ls kind, n ≤ m ∧ m' ≤ k ∧ WrittenAt tokens p ws ∧
      Evaluates tokens table (.primary kind) scope p m q m' ls [v] := by
  obtain ⟨p, m, m', ls, first, last, written, next, value⟩ := h
  obtain ⟨kind, value⟩ := value.of_expression (form tokens p written next) next
  exact ⟨p, _, m, m', ls, kind, first, last, written, value⟩

end

/-! ### What forms yield -/

section

variable {tokens : Array Token} {table : Metric.Table Float} {scope : Scope} {n k : Nat}
  {v : Value} {name : String} {items : List (List Word)} {value body : List Word}

theorem Yields.array (h : Yields tokens table scope n k (arrayWords items) v)
    (forms : ∀ ws ∈ items, Forms .expression ws) :
    ∃ i vs, v = .array i vs ∧ List.Forall₂ (Yields tokens table scope n k) items vs := by
  obtain ⟨p, q, m, m', ls, kind, first, last, ⟨opening, written⟩, value⟩ :=
    h.primary (forms_arrayWords forms)
  cases value.kindAt_primary.symm.trans (kindAt_of_wordAt opening)
  cases value with
  | array _ list =>
    have values := list.yields_separated (.inl rfl) forms written
    exact ⟨_, _, rfl, values.imp fun _ _ h => h.mono first (Nat.le_of_succ_le last)⟩

theorem Yields.lambda (h : Yields tokens table scope n k (lambdaWords name body) v)
    (form : Forms .expression body) :
    ∃ i f, v = .lambda i f ∧ f.parameter = name ∧ f.stop = f.start + body.length ∧
      WrittenAt tokens f.start body ∧ LooseAt tokens 0 f.stop := by
  obtain ⟨p, q, m, m', ls, kind, -, -, written, value⟩ := h.primary (forms_lambdaWords form)
  obtain ⟨function, -, word, -, here, closing⟩ := writtenAt_lambdaWords.mp written
  have isLambda := functionAt_of_wordAt function rfl
  cases value.kindAt_primary.symm.trans (kindAt_of_wordAt function)
  cases value with
  | call other _ _ noLambda => exact absurd (Option.some.inj (other.symm.trans isLambda)) noLambda
  | map other | letForm other => exact absurd (other.symm.trans isLambda) (by decide)
  | lambdaForm _ _ parameter _ inner =>
    cases parameter.symm.trans word
    have next : LooseAt tokens 0 (p + 4 + body.length) := .of_mark closing rfl
    obtain rfl := inner.unique (form tokens (p + 4) here next)
    exact ⟨_, _, rfl, rfl, rfl, here, next⟩

/-- A `LET` evaluates its body with its name bound to its value. -/
theorem Yields.letForm (h : Yields tokens table scope n k (letWords name value body) v)
    (formValue : Forms .expression value) (formBody : Forms .expression body) :
    Applies tokens table scope name body n value v := by
  obtain ⟨p, m, m', ls, first, -, written, next, result⟩ := h
  obtain ⟨function, -, word, comma, here, second, there, closing⟩ := writtenAt_letWords.mp written
  have reads := forms_letWords formValue formBody tokens p written next
  obtain ⟨r, bindings⟩ := result.of_letForm reads next (functionAt_of_wordAt function rfl)
  have loose : LooseAt tokens 0 (p + 4 + value.length) := .of_mark second rfl
  obtain ⟨u, k', l, l', -, bound, behind⟩ := bindings.of_binding word (kindAt_of_wordAt comma)
    (formValue tokens (p + 4) here loose) (kindAt_of_wordAt second)
  obtain ⟨-, yieldsValue⟩ := bound.yields formValue here loose
  have looseBody : LooseAt tokens 0 (p + 4 + value.length + 1 + body.length) := .of_mark closing rfl
  have inner := behind.of_body (formBody tokens _ there looseBody) (kindAt_of_wordAt closing)
  obtain ⟨-, yieldsBody⟩ := inner.yields formBody there looseBody
  exact ⟨_, _, _, yieldsValue.mono first (Nat.le_refl _), yieldsBody⟩

/-- Each call of a lambda evaluates its body with its parameter bound to the argument. -/
theorem Evaluates.yields_calls {f : Lambda} {p q : Nat} {ls : List (String × Int)}
    {vs us : List Value} (h : Evaluates tokens table (.calls f vs) scope p n q k ls us)
    (stop : f.stop = f.start + body.length) (here : WrittenAt tokens f.start body)
    (next : LooseAt tokens 0 f.stop) :
    List.Forall₂ (fun v u => Yields tokens table ((f.parameter, v) :: scope) n k body u) vs us := by
  induction vs generalizing n ls us with
  | nil =>
    cases h
    exact .nil
  | cons v vs ih =>
    cases h with
    | calls call rest =>
      have le := call.identity_le
      rw [stop] at call next
      refine .cons ⟨f.start, _, _, _, Nat.le_refl n, rest.identity_le, here, next, call⟩ ?_
      exact (ih rest).imp fun _ _ h => h.mono le (Nat.le_refl k)

/-- `MAP` evaluates the body of its lambda for each item of its array. -/
theorem Yields.mapping
    (h : Yields tokens table scope n k (mapWords (arrayWords items) (lambdaWords name body)) v)
    (forms : ∀ ws ∈ items, Forms .expression ws) (form : Forms .expression body) :
    ∃ i us, v = .array i us ∧
      List.Forall₂ (Applies tokens table scope name body n) items us := by
  obtain ⟨p, q, m, m', ls, kind, first, last, ⟨function, opening, written⟩, result⟩ :=
    h.primary (forms_mapWords forms form)
  have isMap := functionAt_of_wordAt function rfl
  cases result.kindAt_primary.symm.trans (kindAt_of_wordAt function)
  cases result with
  | call other noMap => exact absurd (Option.some.inj (other.symm.trans isMap)) noMap
  | letForm other | lambdaForm other => exact absurd (other.symm.trans isMap) (by decide)
  | map _ _ list mapped calls =>
    obtain _ | ⟨array, _ | ⟨lambda, _ | _⟩⟩ :=
      list.yields_separated (.inr rfl) (forms_mapArguments forms form) written
    obtain ⟨i, vs, rfl, values⟩ := Yields.array array forms
    obtain ⟨j, f, rfl, rfl, stop, here, next⟩ := Yields.lambda lambda form
    cases mapped
    refine ⟨_, _, rfl, ?_⟩
    have results := forall₂_comp values (calls.yields_calls stop here next)
    refine results.imp fun value u ⟨v, yieldsValue, yieldsBody⟩ => ?_
    exact ⟨v, _, _, yieldsValue.mono first (Nat.le_refl _), yieldsBody⟩

/-- An array of `LET` forms evaluates the body for each of the values. -/
theorem Yields.lettings
    (h : Yields tokens table scope n k (arrayWords (items.map (letWords name · body))) v)
    (forms : ∀ ws ∈ items, Forms .expression ws) (form : Forms .expression body) :
    ∃ i us, v = .array i us ∧
      List.Forall₂ (Applies tokens table scope name body n) items us := by
  obtain ⟨i, us, rfl, values⟩ := h.array (forms_lettings forms form)
  rw [List.forall₂_map_left_iff] at values
  refine ⟨i, us, rfl, ((List.forall₂_and_left _ _).mpr ⟨forms, values⟩).imp ?_⟩
  exact fun value u ⟨formValue, yields⟩ => yields.letForm formValue form

end

/-! ### The same body with the same binding -/

section

variable {tokens tokens' : Array Token} {table : Metric.Table Float} {scope scope' : Scope}
  {p p' n n' k k' : Nat} {ws value body : List Word} {name : String} {u u' : Value} {w : Matching}

/-- Words that are written in two places, with nothing behind them that would belong to them. -/
theorem copied_of_writtenAt (written : WrittenAt tokens p ws) (written' : WrittenAt tokens' p' ws)
    (next : LooseAt tokens 0 (p + ws.length)) (next' : LooseAt tokens' 0 (p' + ws.length)) :
    Copied tokens tokens' p (p + ws.length) p' := by
  refine ⟨fun i lt => ?_, .inr ⟨next, ?_⟩⟩
  · have within : i < ws.length := by omega
    rw [written.wordAt_add within, written'.wordAt_add within]
  · rwa [Nat.add_sub_cancel_left]

/-- Words that are evaluated in two places have alike values. -/
theorem Yields.alike (h : Yields tokens table scope n k ws u)
    (h' : Yields tokens' table scope' n' k' ws u')
    (scopes : Scope.Like w (Lambda.Copied tokens tokens') scope scope') (below : w.Below n n') :
    ∃ w' : Matching, w ≤ w' ∧ w'.Below k k' ∧ u.Like w' (Lambda.Copied tokens tokens') u' := by
  obtain ⟨p, m, m₁, ls, first, last, written, next, evaluates⟩ := h
  obtain ⟨p', m', m₁', ls', first', last', written', next', evaluates'⟩ := h'
  obtain ⟨-, -, w', le, bound, _ | ⟨like, -⟩⟩ :=
    evaluates.alike evaluates' .expression scopes (below.mono first first')
      (copied_of_writtenAt written written' next next')
  exact ⟨w', le, bound.mono last last', like⟩

theorem Applies.content_eq (h : Applies tokens table scope name body n value u)
    (h' : Applies tokens' table scope name body n value u')
    (scopes : Scope.Like (.upTo n) (Lambda.Copied tokens tokens') scope scope) :
    u.content tokens = u'.content tokens' := by
  obtain ⟨v, k, m, yieldsValue, yieldsBody⟩ := h
  obtain ⟨v', k', m', yieldsValue', yieldsBody'⟩ := h'
  obtain ⟨w, le, below, like⟩ := yieldsValue.alike yieldsValue' scopes (Matching.below_upTo n)
  obtain ⟨w', -, -, result⟩ := yieldsBody.alike yieldsBody' ((scopes.mono le).cons like) below
  exact result.content_eq

end

/-! ### Whole formulas -/

/-- A formula of some words that evaluates to a value has evaluated these words. -/
theorem yields_of_evaluate {c : Context} {scope : Scope} {ws : List Word} {v : Value}
    (written : c.tokens.toList.map Token.word = ws ++ [.mark .endMark])
    (form : Forms .expression ws) (h : (evaluate c .live scope).outcome = .ok v) :
    ∃ k, Yields c.tokens c.table scope (Value.itemsIdentityBound (scope.map (·.2))) k ws v := by
  obtain ⟨row, last, -⟩ := writtenAt_append.mp (writtenAt_of_drop (p := 0) written)
  obtain ⟨q, k, ls, value⟩ := Evaluates.of_evaluate h
  exact ⟨k, (value.yields form row (.of_mark last rfl)).2⟩

/-- `MAP` of a lambda over an array of expressions and the array of the `LET` forms that bind its
parameter to these expressions come to the same array, whatever else the two formulas are evaluated
with. -/
theorem map_agrees_with_let {c c' : Context} {scope : Scope} {name : String}
    {items : List (List Word)} {body : List Word} {v v' : Value} (table : c'.table = c.table)
    (keeps : Keeps (fun _ => False) scope) (expressions : ∀ ws ∈ items, IsExpression ws)
    (isBody : IsExpression body)
    (mapping : c.tokens.toList.map Token.word =
      mapWords (arrayWords items) (lambdaWords name body) ++ [.mark .endMark])
    (lettings : c'.tokens.toList.map Token.word =
      arrayWords (items.map (letWords name · body)) ++ [.mark .endMark])
    (h : (evaluate c .live scope).outcome = .ok v)
    (h' : (evaluate c' .live scope).outcome = .ok v') :
    v.content c.tokens = v'.content c'.tokens ∧
      ∃ contents, v.content c.tokens = .array contents ∧ contents.length = items.length := by
  have forms : ∀ ws ∈ items, Forms .expression ws := fun ws mem => (expressions ws mem).forms
  obtain ⟨k, yields⟩ := yields_of_evaluate mapping (forms_mapWords forms isBody.forms).expression h
  obtain ⟨k', yields'⟩ :=
    yields_of_evaluate lettings (forms_arrayWords (forms_lettings forms isBody.forms)).expression h'
  obtain ⟨i, us, rfl, applied⟩ := yields.mapping forms isBody.forms
  obtain ⟨i', us', rfl, applied'⟩ := yields'.lettings forms isBody.forms
  rw [table] at applied'
  have same : List.Forall₂ (fun u u' => u.content c.tokens = u'.content c'.tokens) us us' := by
    refine (forall₂_comp applied.flip applied').imp ?_
    rintro u u' ⟨value, application, application'⟩
    exact Applies.content_eq application application' (.of_noLambda keeps)
  have contents : us.map (Value.content c.tokens) = us'.map (Value.content c'.tokens) := by
    rwa [← List.forall₂_eq_eq_eq, List.forall₂_map_left_iff, List.forall₂_map_right_iff]
  rw [Value.content, Value.content, Value.contents_eq_map, Value.contents_eq_map, contents]
  refine ⟨rfl, _, rfl, ?_⟩
  rw [List.length_map, applied'.length_eq]

/-- A formula without any metrics. -/
def unmeasured (text : String) : Context where
  formula := text.toList
  tokens := (tokenize isFunctionName text).toArray
  table := ⟨[], [], 0⟩

theorem isExpression_of_stopOf (text : String) {ws : List Word}
    (written : (unmeasured text).tokens.toList.map Token.word = ws ++ [.mark .endMark])
    (stop : stopOf (expression 3 .live []) (unmeasured text) {} = some ws.length) :
    IsExpression ws := by
  obtain ⟨v, s, run, ends⟩ := ok_of_stopOf stop
  refine ⟨_, written, ?_⟩
  rw [← ends]
  exact Reads.of_ok run

/-- Lambdas that answer with what they were made from. -/
theorem map_agrees_with_let_lambdas :
    let c := unmeasured "MAP(\x7b1,\"a\"\x7d,LAMBDA(x,LAMBDA(y,x)))"
    let c' := unmeasured "\x7bLET(x,1,LAMBDA(y,x)),LET(x,\"a\",LAMBDA(y,x))\x7d"
    Keeps (fun _ => False) [] ∧
      ∃ v v', (evaluate c .live []).outcome = .ok v ∧ (evaluate c' .live []).outcome = .ok v' ∧
        v.content c.tokens = v'.content c'.tokens := by
  intro c c'
  let one : List Word := [⟨.number, "1"⟩]
  let letter : List Word := [⟨.string, "a"⟩]
  let body : List Word := lambdaWords "y" [⟨.identifier, "x"⟩]
  have expressions : ∀ ws ∈ [one, letter], IsExpression ws := by
    refine List.forall_mem_cons.mpr ⟨?_, List.forall_mem_singleton.mpr ?_⟩
    · exact isExpression_of_stopOf "1" (by decide +kernel) (by decide +kernel)
    · exact isExpression_of_stopOf "\"a\"" (by decide +kernel) (by decide +kernel)
  have isBody : IsExpression body :=
    isExpression_of_stopOf "LAMBDA(y,x)" (by decide +kernel) (by decide +kernel)
  have table : c'.table = c.table := rfl
  have mapping : c.tokens.toList.map Token.word =
      mapWords (arrayWords [one, letter]) (lambdaWords "x" body) ++ [.mark .endMark] := by
    decide +kernel
  have lettings : c'.tokens.toList.map Token.word =
      arrayWords ([one, letter].map (letWords "x" · body)) ++ [.mark .endMark] := by
    decide +kernel
  obtain ⟨v, h⟩ : ∃ v, (evaluate c .live []).outcome = .ok v := exists_value (by decide +kernel)
  obtain ⟨v', h'⟩ : ∃ v, (evaluate c' .live []).outcome = .ok v := exists_value (by decide +kernel)
  have same := map_agrees_with_let table .nil expressions isBody mapping lettings h h'
  exact ⟨.nil, v, v', h, h', same.1⟩

end Quarterly.Formula
