import Quarterly.Proofs.Formula.Agreement

/-!
# Readings simulate the evaluation of trees

Each rule of the grammar, reading the words of a placed tree, agrees with the evaluation of the
tree. Expressions nested in the tree, skipped bodies and lambda calls are taken care of by
`Simulates`, which is what the rules of an expression may rely on; the simulation of whole
expressions is by induction on how deep they may nest.
-/

namespace Quarterly.Formula

/-- The body of a lambda is one of some trees. -/
def Lambda.Among (known : List (Nat × Tree .expression)) (f : Lambda) : Prop :=
  ∃ body, (f.start, body) ∈ known ∧ f.stop = f.start + body.width

/-- A reading ends at a token with a value whose lambdas are among those known. -/
def Arrives (known : List (Nat × Tree .expression)) (stop : Nat) (v : Value) (q : Nat) : Prop :=
  q = stop ∧ v.EveryLambda (Lambda.Among known)

/-- What the rules of an expression may rely on. -/
structure Simulates (c : Context) (excused : Fault → Prop)
    (known : List (Nat × Tree .expression)) (nested : Nested)
    (call : Scope → Lambda → Value → Reckoning Value) : Prop where
  expression : ∀ {t : Tree .expression} {p : Nat} {scope : Scope},
    Placed c.tokens known t 0 p → Keeps (Lambda.Among known) scope →
    Agrees c excused p (Arrives known (p + t.width)) (nested.expression .live scope)
      (t.value call p scope)
  skip : ∀ {t : Tree .expression} {p : Nat} {scope : Scope}, Placed c.tokens known t 0 p →
    Agrees c excused p (fun stop q => stop = p + t.width ∧ q = p) (Rule.skip nested scope)
      (pure (p + t.width))
  call : ∀ {p : Nat} {scope : Scope} {f : Lambda} {argument : Value}, f.Among known →
    Keeps (Lambda.Among known) scope → argument.EveryLambda (Lambda.Among known) →
    Agrees c excused p (Arrives known p) (Rule.callLambda nested scope f argument)
      (call scope f argument)

/-- Where a token is left there is a round left. -/
theorem exists_round {tokens : Array Token} {p rounds : Nat} (left : p < tokens.size)
    (enough : tokens.size - p ≤ rounds) : ∃ k, rounds = k + 1 :=
  Nat.exists_eq_succ_of_ne_zero (by omega)

theorem quarterIndex_of_word {token : Token} {index : IndexWord}
    (h : token.word = index.write) : Rule.quarterIndex token = index.index := by
  obtain ⟨kind, text, position⟩ := token
  cases index with
  | word text' isIndex =>
    obtain ⟨rfl, rfl⟩ := Word.mk.inj h
    obtain ⟨n, hn⟩ := Option.isSome_iff_exists.mp isIndex
    simp [Rule.quarterIndex, IndexWord.index, hn]
    rfl
  | number text' =>
    obtain ⟨rfl, rfl⟩ := Word.mk.inj h
    rfl

theorem Builtin.name_ne_mapName (f : Builtin) : f.name ≠ mapName := by
  cases f <;> decide

theorem Builtin.ofName?_name (f : Builtin) : ofName? f.name = some f := by
  cases f <;> decide

namespace Simulates

variable {c : Context} {excused : Fault → Prop} {known : List (Nat × Tree .expression)}
  {nested : Nested} {call : Scope → Lambda → Value → Reckoning Value}
  (sim : Simulates c excused known nested call) {scope : Scope}
  (keeps : Keeps (Lambda.Among known) scope)

/-! ### Primaries without parts -/

section

variable {bound p : Nat}

theorem number {text : String} (h : Placed c.tokens known (.number text) bound p) :
    Agrees c excused p (Arrives known (p + 1)) (Rule.primary nested .live scope)
      ((Tree.number text).value call p scope) := by
  refine .peek h.written.1 fun token hw => ?_
  obtain ⟨kind, rfl⟩ := Word.mk.inj hw
  simp only [kind]
  refine .advance h.written.1 (by simp) fun _ _ => ?_
  refine .bind .orFault ?_
  rintro x _ ⟨_, rfl⟩
  exact .pure ⟨rfl, .scalar (Value.isScalar_ofFinite _)⟩

theorem string {text : String} (h : Placed c.tokens known (.string text) bound p) :
    Agrees c excused p (Arrives known (p + 1)) (Rule.primary nested .live scope)
      ((Tree.string text).value call p scope) := by
  refine .peek h.written.1 fun token hw => ?_
  obtain ⟨kind, rfl⟩ := Word.mk.inj hw
  simp only [kind]
  refine .advance h.written.1 (by simp) fun _ _ => ?_
  exact .pure ⟨rfl, .scalar trivial⟩

theorem reference {metric : String} {index : IndexWord}
    (h : Placed c.tokens known (.reference metric index) bound p) :
    Agrees c excused p (Arrives known (p + 4)) (Rule.primary nested .live scope)
      ((Tree.reference metric index).value call p scope) := by
  obtain ⟨name, opening, word, closing⟩ := h.reference
  have indexNotEnd : index.write.kind ≠ .endMark := by
    rcases index.kind_write with h | h <;> simp [h]
  refine .peek name fun token hw => ?_
  obtain ⟨kind, rfl⟩ := Word.mk.inj hw
  simp only [kind]
  refine .advance name (by simp) fun _ _ => ?_
  refine .peek opening fun bracket hb => ?_
  obtain ⟨bracketKind, -⟩ := Word.mk.inj hb
  simp only [bracketKind]
  refine .advance opening (by simp) fun _ _ => ?_
  refine .peek word fun indexToken hi => ?_
  rw [quarterIndex_of_word hi]
  refine .bind .orFault ?_
  rintro k _ ⟨-, rfl⟩
  refine .advance word indexNotEnd fun _ _ => ?_
  refine .expect closing (by simp) fun _ _ => ?_
  refine .step Steps.read ?_
  exact .lookup

include keeps

theorem name {word : String} (h : Placed c.tokens known (.name word) 4 p) :
    Agrees c excused p (Arrives known (p + 1)) (Rule.primary nested .live scope)
      ((Tree.name word).value call p scope) := by
  obtain ⟨noBracket, noParen⟩ := h.next.noOpening
  obtain ⟨next, hn, -⟩ := h.next
  have looked : Agrees c excused (p + 1) (Arrives known (p + 1)) (Rule.name .live scope word)
      ((Tree.name word).value call p scope) := by
    unfold Rule.name
    rw [Tree.value]
    cases hv : scope.lookup word with
    | some v => exact .pure ⟨rfl, keeps.lookup hv⟩
    | none => exact .lookup
  refine .peek h.written.1 fun token hw => ?_
  obtain ⟨kind, rfl⟩ := Word.mk.inj hw
  simp only [kind]
  refine .advance h.written.1 (by simp) fun _ _ => ?_
  refine .peek hn fun following hw' => ?_
  obtain rfl := hw'
  have same : kindAt c.tokens (p + 1) = some following.kind := kindAt_of_wordAt hn
  split
  · exact absurd (same.trans (congrArg some ‹_›)) noBracket
  · exact absurd (same.trans (congrArg some ‹_›)) noParen
  · exact looked

end

/-! ### Forms that bind names -/

section

variable {bound p : Nat}

include sim

theorem lambdaForm {parameter : String} {body : Tree .expression}
    (h : Placed c.tokens known (.lambdaForm parameter body) bound p) :
    Agrees c excused p (Arrives known (p + 4 + body.width + 1)) (Rule.primary nested .live scope)
      ((Tree.lambdaForm parameter body).value call p scope) := by
  obtain ⟨name, opening, word, comma, placed, closing, among⟩ := h.lambdaForm
  refine .peek name fun token hw => ?_
  obtain ⟨kind, text⟩ := Word.mk.inj hw
  simp only [kind]
  refine .advance name (by simp) fun _ _ => ?_
  have noLet : token.text ≠ letName := text ▸ by decide
  rw [if_neg noLet, if_pos text]
  refine .expect opening (by simp) fun _ _ => ?_
  refine .expect word (by simp) fun parameterToken hx => ?_
  obtain ⟨-, rfl⟩ := Word.mk.inj hx
  refine .expect comma (by simp) fun _ _ => ?_
  refine .step Steps.position ?_
  refine .before (sim.skip placed) ?_
  refine .step Steps.setPosition ?_
  refine .expect closing (by simp) fun _ _ => ?_
  refine .bind .newIdentity ?_
  rintro identity _ rfl
  exact .pure ⟨rfl, .lambda ⟨body, among, rfl⟩⟩

/-- Bindings and the body behind them. The body is no binding, and a comma stands behind every
binding. -/
theorem bindings {t : Tree .bindings} {p rounds : Nat} {scope : Scope}
    (h : Placed c.tokens known t 0 p)
    (closing : kindAt c.tokens (p + t.width) = some .rightParen)
    (enough : c.tokens.size - p ≤ rounds) (keeps : Keeps (Lambda.Among known) scope) :
    Agrees c excused p (Arrives known (p + t.width))
      (Rule.bindings nested .live rounds scope >>= nested.expression .live)
      (t.value call p scope) :=
  match t with
  | .letBody body => by
    have placed : Placed c.tokens known body 0 p := h.letBody
    have ends : kindAt c.tokens (p + body.width) = some .rightParen := closing
    have noBinding : ¬ BindingAt c.tokens p := placed.reads.not_bindingAt (by simp [ends])
    obtain ⟨token, ht⟩ := placed.exists_token
    obtain ⟨rounds, rfl⟩ := exists_round (lt_size_of_token ht) enough
    have back : Steps c p p (Rule.bindings nested .live (rounds + 1) scope) scope := by
      refine .bind (Steps.peek ht) ?_
      by_cases kind : token.kind = .identifier
      · have noComma : kindAt c.tokens (p + 1) ≠ some .comma := by
          intro comma
          exact noBinding ⟨by simp [kindAt, ht, kind], comma⟩
        obtain ⟨following, hf⟩ := placed.exists_following
        rw [if_neg (not_not_intro kind)]
        refine .bind Steps.position ?_
        refine .bind (Steps.advance ht (by simp [kind])) ?_
        refine .bind (Steps.not_accept hf noComma) ?_
        exact .bind Steps.setPosition (.pure scope)
      · rw [if_pos kind]
        exact .pure scope
    exact .step back (sim.expression placed keeps)
  | .binding word t rest => by
    obtain ⟨name, comma, placed, comma', placedRest⟩ := h.binding
    obtain ⟨rounds, rfl⟩ := exists_round (lt_size_of_wordAt name) enough
    rw [Tree.end_binding] at closing ⊢
    unfold Rule.bindings
    rw [bind_assoc]
    refine .peek name fun token hw => ?_
    obtain ⟨kind, -⟩ := Word.mk.inj hw
    rw [if_neg (not_not_intro kind), bind_assoc]
    refine .step Steps.position ?_
    rw [bind_assoc]
    refine .advance name (by simp) fun token hw => ?_
    obtain ⟨-, rfl⟩ := Word.mk.inj hw
    rw [bind_assoc]
    refine .step (Steps.accept (kindAt_of_wordAt comma) (by decide)) ?_
    rw [if_pos rfl, bind_assoc]
    refine .bind (sim.expression placed keeps) ?_
    rintro v _ ⟨rfl, hv⟩
    rw [bind_assoc]
    refine .peek comma' fun next hn => ?_
    have nextKind : next.kind = .comma := congrArg Word.kind hn
    rw [if_neg (by simp [nextKind]), bind_assoc]
    refine .step (Steps.accept (kindAt_of_wordAt comma') (by decide)) ?_
    rw [if_pos rfl]
    exact bindings placedRest closing (by omega) (keeps.cons hv)

include keeps

theorem letForm {bindings : Tree .bindings}
    (h : Placed c.tokens known (.letForm bindings) bound p) :
    Agrees c excused p (Arrives known (p + 2 + bindings.width + 1))
      (Rule.primary nested .live scope) ((Tree.letForm bindings).value call p scope) := by
  obtain ⟨name, opening, placed, closing⟩ := h.letForm
  refine .peek name fun token hw => ?_
  obtain ⟨kind, text⟩ := Word.mk.inj hw
  simp only [kind]
  refine .advance name (by simp) fun _ _ => ?_
  rw [if_pos text]
  refine .expect opening (by simp) fun _ _ => ?_
  refine .step Steps.tokensLeft ?_
  rw [← bind_assoc]
  refine .after (sim.bindings placed (kindAt_of_wordAt closing) (Nat.le_refl _) keeps) ?_
  rintro v _ ⟨rfl, hv⟩
  refine .expect closing (by simp) fun _ _ => ?_
  exact .pure ⟨rfl, hv⟩

end

/-! ### Lists of expressions -/

include sim keeps

theorem moreItems {closing : TokenKind} {items : List (Tree .expression)} {p : Nat}
    (h : PlacedOthers c.tokens known closing items p) {rounds : Nat}
    (enough : c.tokens.size - p ≤ rounds) {before : Array Value}
    (hb : ∀ v ∈ before, v.EveryLambda (Lambda.Among known)) :
    Agrees c excused p
      (fun vs q => q = p + Tree.widthOthers items ∧ ∀ v ∈ vs, v.EveryLambda (Lambda.Among known))
      (Rule.moreItems (nested.expression .live scope) rounds before)
      (do return before ++ (← Tree.otherValues call items p scope).toArray) := by
  induction items generalizing p rounds before with
  | nil =>
    obtain ⟨rounds, rfl⟩ := exists_round h.looseAt.lt_size enough
    have kind : kindAt c.tokens p = some closing := kindAt_of_wordAt h.next
    have noComma : kindAt c.tokens p ≠ some .comma := by
      rcases h.closes with rfl | rfl <;> simp [kind]
    obtain ⟨token, ht, -⟩ := Option.map_eq_some_iff.mp kind
    have same : (do return before ++ (← Tree.otherValues call [] p scope).toArray) =
        (pure before : Reckoning (Array Value)) := by
      simp [Tree.otherValues]
    rw [same]
    refine .step (Steps.not_accept ht noComma) ?_
    exact .pure ⟨rfl, hb⟩
  | cons t rest ih =>
    obtain ⟨rounds, rfl⟩ := exists_round h.looseAt.lt_size enough
    obtain ⟨comma, placed, others⟩ := h.cons
    have same : (do return before ++ (← Tree.otherValues call (t :: rest) p scope).toArray) =
        (do
          let v ← t.value call (p + 1) scope
          return before.push v ++
            (← Tree.otherValues call rest (p + 1 + t.width) scope).toArray) := by
      simp [Tree.otherValues]
    rw [same]
    refine .step (Steps.accept (kindAt_of_wordAt comma) (by decide)) ?_
    refine .bind (sim.expression placed keeps) ?_
    rintro v _ ⟨rfl, hv⟩
    have hpush : ∀ u ∈ before.push v, u.EveryLambda (Lambda.Among known) := by
      intro u hu
      rcases Array.mem_push.mp hu with hu | rfl
      · exact hb u hu
      · exact hv
    refine .mono (ih others (by omega) hpush) ?_
    rintro vs _ ⟨rfl, hvs⟩
    exact ⟨Tree.endOthers_cons.symm, hvs⟩

theorem items {closing : TokenKind} {problem : SyntaxFault} {items : List (Tree .expression)}
    {p : Nat} (h : PlacedAll c.tokens known closing items p) :
    Agrees c excused p
      (fun vs q => q = p + Tree.widthAll items + 1 ∧
        ∀ v ∈ vs, v.EveryLambda (Lambda.Among known))
      (Rule.items (nested.expression .live scope) closing problem)
      (Tree.values call items p scope) := by
  cases items with
  | nil =>
    refine .peek h.next fun token hw => ?_
    have kind : token.kind = closing := congrArg Word.kind hw
    rw [if_pos kind]
    refine .step (Steps.pure #[]) ?_
    refine .expect h.next h.notEnd fun _ _ => ?_
    exact .pure ⟨rfl, by simp⟩
  | cons t rest =>
    obtain ⟨placed, others⟩ := h.cons
    obtain ⟨token, ht⟩ := placed.exists_token
    have notEnd : token.kind ≠ closing := by
      have other := placed.kindAt_ne h.closes
      simpa [kindAt, ht] using other
    have same : Tree.values call (t :: rest) p scope = (do
        let v ← t.value call p scope
        let vs ← (do return #[v] ++ (← Tree.otherValues call rest (p + t.width) scope).toArray)
        return vs.toList) := by
      simp [Tree.values]
    rw [same]
    refine .step (Steps.peek ht) ?_
    rw [if_neg notEnd]
    refine .bind (sim.expression placed keeps) ?_
    rintro v _ ⟨rfl, hv⟩
    refine .step Steps.tokensLeft ?_
    refine .bind (sim.moreItems keeps others (Nat.le_refl _) (by simpa using hv)) ?_
    rintro vs _ ⟨rfl, hvs⟩
    refine .expect others.next h.notEnd fun _ _ => ?_
    exact .pure ⟨congrArg (· + 1) Tree.endAll_cons.symm, by simpa using hvs⟩

theorem arguments {function : String} {args : List (Tree .expression)} {p : Nat}
    (opening : wordAt c.tokens p = some (.mark .leftParen))
    (h : PlacedAll c.tokens known .rightParen args (p + 1)) :
    Agrees c excused p
      (fun vs q => q = p + 1 + Tree.widthAll args + 1 ∧
        ∀ v ∈ vs, v.EveryLambda (Lambda.Among known))
      (Rule.arguments (nested.expression .live scope) function)
      (Tree.values call args (p + 1) scope) := by
  exact .expect opening (by simp) fun _ _ => sim.items keeps h

/-! ### Calls -/

theorem mapCalls {f : Lambda} {items : List Value} {p : Nat} (hf : f.Among known)
    (h : ∀ v ∈ items, v.EveryLambda (Lambda.Among known)) :
    Agrees c excused p (fun vs q => q = p ∧ ∀ v ∈ vs, v.EveryLambda (Lambda.Among known))
      (items.mapM (Rule.callLambda nested scope f)) (items.mapM (call scope f)) := by
  induction items with
  | nil => exact .pure ⟨rfl, by simp⟩
  | cons v rest ih =>
    rw [List.mapM_cons, List.mapM_cons]
    refine .bind (sim.call hf keeps (h v (by simp))) ?_
    rintro u p ⟨rfl, hu⟩
    refine .bind (ih fun w hw => h w (by simp [hw])) ?_
    rintro us _ ⟨rfl, hus⟩
    exact .pure ⟨rfl, by simpa using ⟨hu, hus⟩⟩

theorem applyFunction {function : Callee} {args : List Value} {p : Nat}
    (h : ∀ v ∈ args, v.EveryLambda (Lambda.Among known)) :
    Agrees c excused p (Arrives known p) (Rule.applyFunction nested scope function.name args)
      (function.apply (call scope) args) := by
  unfold Rule.applyFunction
  cases function with
  | builtin f =>
    have notMap : (Callee.builtin f).name ≠ mapName := f.name_ne_mapName
    have found : Builtin.ofName? (Callee.builtin f).name = some f := f.ofName?_name
    rw [if_neg notMap, found]
    refine .bind .orFault ?_
    rintro answer p ⟨ha, rfl⟩
    exact .ofAnswer (Value.EveryLambda.answer h ha)
  | map =>
    have isMap : Callee.map.name = mapName := rfl
    rw [if_pos isMap]
    refine .bind .orFault ?_
    rintro ⟨items, f⟩ p ⟨hm, rfl⟩
    obtain ⟨identity, hlambda, rfl⟩ := Library.mapArguments_eq_ok hm
    have hf : f.Among known := (hlambda ▸ Value.EveryLambda.getD h 1).of_lambda
    refine .bind (sim.mapCalls keeps hf (Value.EveryLambda.getD h 0).toItems) ?_
    rintro vs p ⟨rfl, hvs⟩
    exact .newArray hvs

/-! ### Primaries -/

variable {bound p : Nat}

theorem array {items : List (Tree .expression)}
    (h : Placed c.tokens known (.array items) bound p) :
    Agrees c excused p (Arrives known (p + 1 + Tree.widthAll items + 1))
      (Rule.primary nested .live scope) ((Tree.array items).value call p scope) := by
  obtain ⟨opening, placed⟩ := h.array
  refine .peek opening fun token hw => ?_
  obtain ⟨kind, -⟩ := Word.mk.inj hw
  simp only [kind]
  refine .advance opening (by simp) fun _ _ => ?_
  refine .bind (sim.items keeps placed) ?_
  rintro vs _ ⟨rfl, hvs⟩
  exact .newArray hvs

theorem unknownCall {function : String} {arguments : List (Tree .expression)}
    (h : Placed c.tokens known (.unknownCall function arguments) bound p) :
    Agrees c excused p (Arrives known (p + 2 + Tree.widthAll arguments + 1))
      (Rule.primary nested .live scope)
      ((Tree.unknownCall function arguments).value call p scope) := by
  obtain ⟨name, opening, placed⟩ := h.unknownCall
  refine .peek name fun token hw => ?_
  obtain ⟨kind, rfl⟩ := Word.mk.inj hw
  simp only [kind]
  refine .advance name (by simp) fun _ _ => ?_
  refine .peek opening fun paren hp => ?_
  obtain ⟨parenKind, -⟩ := Word.mk.inj hp
  simp only [parenKind]
  refine .bind (sim.arguments keeps opening placed) ?_
  rintro vs _ ⟨rfl, -⟩
  rw [if_pos rfl]
  refine .step Steps.notice ?_
  refine .step Steps.noteStep ?_
  exact .pure ⟨rfl, .scalar trivial⟩

theorem libraryCall {function : Callee} {arguments : List (Tree .expression)}
    (h : Placed c.tokens known (.call function arguments) bound p) :
    Agrees c excused p (Arrives known (p + 2 + Tree.widthAll arguments + 1))
      (Rule.primary nested .live scope) ((Tree.call function arguments).value call p scope) := by
  obtain ⟨name, opening, placed⟩ := h.call
  refine .peek name fun token hw => ?_
  obtain ⟨kind, text⟩ := Word.mk.inj hw
  have noLet : token.text ≠ letName := text ▸ function.name_ne_letName
  have noLambda : token.text ≠ lambdaName := text ▸ function.name_ne_lambdaName
  simp only [kind]
  refine .advance name (by simp) fun _ _ => ?_
  rw [if_neg noLet, if_neg noLambda]
  refine .bind (sim.arguments keeps opening placed) ?_
  rintro vs q ⟨rfl, hvs⟩
  rw [if_neg (by decide), text]
  refine .after (sim.applyFunction keeps hvs) ?_
  rintro v _ ⟨rfl, hv⟩
  refine .step Steps.noteStep ?_
  exact .pure ⟨rfl, hv⟩

theorem parenthesized {inner : Tree .expression}
    (h : Placed c.tokens known (.parenthesized inner) bound p) :
    Agrees c excused p (Arrives known (p + 1 + inner.width + 1)) (Rule.primary nested .live scope)
      ((Tree.parenthesized inner).value call p scope) := by
  obtain ⟨opening, placed, closing⟩ := h.parenthesized
  refine .peek opening fun token hw => ?_
  obtain ⟨kind, -⟩ := Word.mk.inj hw
  simp only [kind]
  refine .advance opening (by simp) fun _ _ => ?_
  refine .after (sim.expression placed keeps) ?_
  rintro v _ ⟨rfl, hv⟩
  refine .expect closing (by simp) fun _ _ => ?_
  exact .pure ⟨rfl, hv⟩

theorem primary {t : Tree .primary} (h : Placed c.tokens known t 4 p) :
    Agrees c excused p (Arrives known (p + t.width)) (Rule.primary nested .live scope)
      (t.value call p scope) := by
  cases t with
  | number text => exact number h
  | string text => exact string h
  | array items =>
    rw [Tree.end_array]
    exact sim.array keeps h
  | name word => exact name keeps h
  | reference metric index => exact reference h
  | unknownCall function arguments =>
    rw [Tree.end_unknownCall]
    exact sim.unknownCall keeps h
  | call function arguments =>
    rw [Tree.end_call]
    exact sim.libraryCall keeps h
  | letForm bindings =>
    rw [Tree.end_letForm]
    exact sim.letForm keeps h
  | lambdaForm parameter body =>
    rw [Tree.end_lambdaForm]
    exact sim.lambdaForm h
  | parenthesized inner =>
    rw [Tree.end_parenthesized]
    exact sim.parenthesized keeps h

/-! ### Signs -/

theorem signed {t : Tree .unary} {p rounds : Nat} (h : Placed c.tokens known t 3 p)
    (enough : c.tokens.size - p ≤ rounds) :
    Agrees c excused p (Arrives known (p + t.width))
      (Rule.signed (Rule.primary nested .live scope) .live rounds) (t.value call p scope) :=
  match t with
  | .negation operand => by
    obtain ⟨sign, placed⟩ := h.negation
    obtain ⟨rounds, rfl⟩ := exists_round (lt_size_of_wordAt sign) enough
    rw [Tree.end_negation]
    refine .step (Steps.acceptOperator (operatorAt_of_wordAt sign)) ?_
    refine .bind (signed placed (by omega)) ?_
    rintro v _ ⟨rfl, -⟩
    refine .step Steps.noteStep ?_
    exact .pure ⟨rfl, .scalar (isScalar_negate v)⟩
  | .percent operand => by
    obtain ⟨placed, sign⟩ := h.percent
    obtain ⟨token, ht⟩ := placed.exists_token
    obtain ⟨rounds, rfl⟩ := exists_round (lt_size_of_token ht) enough
    refine .step (Steps.not_acceptOperator ht placed.noSign) ?_
    refine .bind (sim.primary keeps placed) ?_
    rintro v _ ⟨rfl, hv⟩
    refine .step (Steps.acceptOperator (operatorAt_of_wordAt sign)) ?_
    rw [Tree.end_percent]
    cases v with
    | number n =>
      refine .after .orNumericFault ?_
      rintro v _ ⟨hv, rfl⟩
      refine .step Steps.noteStep ?_
      exact .pure ⟨rfl, .scalar (isScalar_percent hv)⟩
    | _ => exact .pure ⟨rfl, hv⟩
  | .unsigned operand => by
    have placed := h.unsigned
    obtain ⟨token, ht⟩ := placed.exists_token
    obtain ⟨rounds, rfl⟩ := exists_round (lt_size_of_token ht) enough
    obtain ⟨following, hf⟩ := placed.next.exists_token
    refine .step (Steps.not_acceptOperator ht placed.noSign) ?_
    refine .after (sim.primary keeps (placed.mono (by decide))) ?_
    rintro v _ ⟨rfl, hv⟩
    refine .step (Steps.not_acceptOperator hf placed.next.noPercent) ?_
    exact .pure ⟨rfl, hv⟩

theorem unary {t : Tree .unary} (h : Placed c.tokens known t 3 p) :
    Agrees c excused p (Arrives known (p + t.width)) (Rule.unary nested .live scope)
      (t.value call p scope) :=
  .step Steps.tokensLeft (sim.signed keeps h (Nat.le_refl _))

/-! ### Operators -/

section

variable {rank : Rank} {operand : Eval Value}
  (agrees : ∀ {t : Tree rank.operand} {p : Nat}, Placed c.tokens known t (rank.bound + 1) p →
    Agrees c excused p (Arrives known (p + t.width)) operand (t.value call p scope))

include agrees

omit sim keeps in
/-- The tree of a level leans to the left: its reading is the reading of the level up to there, and
what the chain of operators does next is left open. -/
theorem chained {t : Tree (.level rank)} {p : Nat} (h : Placed c.tokens known t (rank.bound + 1) p)
    {Q : Value → Nat → Prop} {r : Value → Reckoning Value}
    (rest : ∀ v rounds, v.EveryLambda (Lambda.Among known) →
      c.tokens.size - (p + t.width) ≤ rounds →
      Agrees c excused (p + t.width) Q (Rule.chain operand rank.op? .live rounds v) (r v)) :
    Agrees c excused p Q (Rule.level operand rank.op? .live) (t.value call p scope >>= r) :=
  match t with
  | .alone t => by
    refine .bind (agrees h.alone) ?_
    rintro v _ ⟨rfl, hv⟩
    exact .step Steps.tokensLeft (rest v _ hv (Nat.le_refl _))
  | .operation left op ofRank right => by
    obtain ⟨placedLeft, symbol, placedRight⟩ := h.operation
    rw [Tree.end_operation] at rest
    rw [Tree.value, bind_assoc]
    refine chained placedLeft ?_
    intro a rounds ha enough
    obtain ⟨rounds, rfl⟩ := exists_round (lt_size_of_wordAt symbol) enough
    obtain ⟨token, ht, -⟩ := Option.map_eq_some_iff.mp symbol
    have next : (operatorAt c.tokens (p + left.width)).bind rank.op? = some op :=
      ArithmeticOp.op?_of_wordAt ofRank symbol
    rw [bind_assoc]
    refine .step (next ▸ Steps.operator? ht) ?_
    refine .advance symbol (by simp) fun _ _ => ?_
    refine .bind (agrees placedRight) ?_
    rintro b _ ⟨rfl, -⟩
    unfold Rule.combine
    rw [bind_assoc]
    refine .bind .orNumericFault ?_
    rintro v _ ⟨hv, rfl⟩
    rw [bind_assoc]
    refine .step Steps.noteStep ?_
    exact rest v rounds (.scalar (isScalar_arithmetic hv)) (by omega)

omit sim keeps in
theorem level {t : Tree (.level rank)} (h : Placed c.tokens known t rank.bound p) :
    Agrees c excused p (Arrives known (p + t.width)) (Rule.level operand rank.op? .live)
      (t.value call p scope) := by
  rw [← bind_pure (t.value call p scope)]
  refine chained agrees (h.mono (Nat.le_succ _)) ?_
  intro v rounds hv enough
  obtain ⟨rounds, rfl⟩ := exists_round h.next.lt_size enough
  obtain ⟨token, ht⟩ := h.next.exists_token
  refine .step (h.next.noOperator ▸ Steps.operator? ht) ?_
  exact .pure ⟨rfl, hv⟩

end

theorem multiplicative {t : Tree (.level .product)} (h : Placed c.tokens known t 2 p) :
    Agrees c excused p (Arrives known (p + t.width)) (Rule.multiplicative nested .live scope)
      (t.value call p scope) :=
  level (sim.unary keeps) h

theorem additive {t : Tree (.level .sum)} (h : Placed c.tokens known t 1 p) :
    Agrees c excused p (Arrives known (p + t.width)) (Rule.additive nested .live scope)
      (t.value call p scope) :=
  level (sim.multiplicative keeps) h

theorem compared {t : Tree .expression} (h : Placed c.tokens known t 0 p) :
    Agrees c excused p (Arrives known (p + t.width)) (Rule.compared nested .live scope)
      (t.value call p scope) := by
  cases t with
  | plain operand =>
    have placed := h.plain
    obtain ⟨token, ht⟩ := placed.next.exists_token
    refine .after (sim.additive keeps (placed.mono (Nat.zero_le _))) ?_
    rintro v _ ⟨rfl, hv⟩
    refine .step (placed.next.noComparison ▸ Steps.operator? ht) ?_
    exact .pure ⟨rfl, hv⟩
  | comparison left op right =>
    obtain ⟨placedLeft, symbol, placedRight⟩ := h.comparison
    obtain ⟨token, ht, -⟩ := Option.map_eq_some_iff.mp symbol
    have next : (operatorAt c.tokens (p + left.width)).bind ComparisonOp.ofSymbol? = some op :=
      ComparisonOp.ofSymbol?_of_wordAt symbol
    rw [Tree.end_comparison]
    refine .bind (sim.additive keeps placedLeft) ?_
    rintro a _ ⟨rfl, -⟩
    refine .step (next ▸ Steps.operator? ht) ?_
    refine .advance symbol (by simp) fun _ _ => ?_
    refine .bind (sim.additive keeps (placedRight.mono (Nat.zero_le _))) ?_
    rintro b _ ⟨rfl, -⟩
    refine .bind .orNumericFault ?_
    rintro result _ ⟨-, rfl⟩
    refine .step Steps.noteStep ?_
    exact .pure ⟨rfl, .scalar trivial⟩

end Simulates

end Quarterly.Formula
