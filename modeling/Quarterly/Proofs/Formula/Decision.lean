import Quarterly.Proofs.Formula.Discipline

/-!
# Readings decide the grammar

Rule by rule: a reading that comes back has read a phrase within the limit, and a reading that
faults had reason to. In the end a row of tokens is read if and only if it is an expression within
the limit (`Discipline.readAll`), as far as values have no say in it.
-/

namespace Quarterly.Formula

namespace Decides

variable {tokens : Array Token} {D : Discipline tokens} (ends : EndsOnce tokens)
variable {n p : Nat}

/-! ### Words without parts -/

theorem indexAt_of_quarterIndex {token : Token} {index : Int} (ht : tokens[p]? = some token)
    (h : Rule.quarterIndex token = .ok index) : IndexAt tokens p :=
  ⟨token, ht, index_of_quarterIndex h⟩

/-- What stands in the brackets is an index, or else there is a reason to refuse the reference. -/
theorem meets_quarterIndex {token : Token} (opening : kindAt tokens (p + 1) = some .leftBracket)
    (kind : kindAt tokens p = some .identifier) (ht : tokens[p + 2]? = some token) :
    Meets (Rule.quarterIndex token) (fun _ => IndexAt tokens (p + 2))
      (D.Refuses (n + 1) .primary p) := by
  cases hx : Rule.quarterIndex token with
  | ok index => exact indexAt_of_quarterIndex ht hx
  | error fault =>
    rcases fault_quarterIndex hx with ⟨rfl, noNumber, noWord⟩ | ⟨number, -⟩
    · intro k h
      obtain ⟨token', ht', index⟩ := (h.index kind opening).1
      obtain rfl : token = token' := Option.some.inj (ht.symm.trans ht')
      obtain ⟨word, named⟩ := index.resolve_right noNumber
      rw [noWord word] at named
      cases named
    · have met := D.index opening ht number
      rw [hx] at met
      exact Discipline.refuses_of_allows met

section

variable {mode : Mode} (admits : D.Admits mode)

include ends admits

theorem reference {token : Token} (kind : kindAt tokens p = some .identifier)
    (opening : kindAt tokens (p + 1) = some .leftBracket) :
    RunsInside tokens (D.Refuses (n + 1) .primary p) (p + 1) (D.Yields (n + 1) .primary p)
      (Rule.reference mode token) := by
  refine .bind (.advance ends opening (by decide)) ?_
  rintro _ _ ⟨_, rfl⟩
  refine .bind .peek ?_
  rintro index _ ⟨hi, rfl⟩
  refine .bind (.orFault (meets_quarterIndex opening kind hi)) ?_
  rintro k _ ⟨hk, rfl⟩
  have advanced : RunsInside tokens (D.Refuses (n + 1) .primary p) (p + 2)
      (fun _ q => q = p + 3) Eval.advance := by
    rcases hk.kind with h | h
    · exact .mono (.advance ends h (by decide)) fun _ _ hq => hq.2
    · exact .mono (.advance ends h (by decide)) fun _ _ hq => hq.2
  refine .bind advanced ?_
  rintro _ _ rfl
  refine .bind (.expect ends (by decide) fun missing _ _ h =>
    missing (h.index kind opening).2) ?_
  rintro closing _ ⟨hc, rfl⟩
  refine .formula (f := fun formula =>
    Rule.lookup mode token.text k (sliceText formula token.position (closing.position + 1))) ?_
  intro formula
  have reads : ReadsWithin tokens (n + 1) .primary p (p + 4) := .reference kind opening hk hc
  exact .lookup (fun _ => ⟨reads, D.null⟩) fun live found => ⟨reads, D.found (live ▸ admits) found⟩

end

/-! ### Lists of expressions -/

section

variable {item : Eval Value} (holds : ∀ {p}, D.Decides n .expression p item)

include ends holds

theorem moreItems (rounds : Nat) {items : Array Value} (enough : tokens.size ≤ p + rounds)
    (h : ∀ v ∈ items, D.Good v) :
    RunsInside tokens (D.Refuses n .others p) p
      (fun vs q => ReadsWithin tokens n .others p q ∧ ∀ v ∈ vs, D.Good v)
      (Rule.moreItems item rounds items) := by
  induction rounds generalizing p items with
  | zero => exact .noRounds enough
  | succ rounds ih =>
    refine .bind (.accept ends (by decide)) ?_
    rintro _ _ (⟨rfl, hc, rfl⟩ | ⟨rfl, hc, rfl⟩)
    · have level := openAt_succ_of_turn hc rfl
      refine .bind (holds.excuse fun _ hf => hf.of_part (fun _ hk => hk.nextItem hc) level) ?_
      rintro v q ⟨hr, hv⟩
      have hpush : ∀ u ∈ items.push v, D.Good u := by
        intro u hu
        rcases Array.mem_push.mp hu with hu | rfl
        · exact h u hu
        · exact hv
      have hle := hr.le
      have rest := (ih (by omega) hpush).excuse fun _ hf =>
        hf.of_part (fun _ hk => hk.moreOthers hc hr) ((hr.openAt_eq rfl).trans level)
      exact rest.mono fun vs r ho => ⟨.others hc hr ho.1, ho.2⟩
    · exact .pure ⟨.noOthers hc, h⟩

theorem items {closing : TokenKind} {problem : SyntaxFault} (notEnd : closing ≠ .endMark) :
    RunsInside tokens (D.Refuses n (.list closing) p) p (D.YieldsAll n (.list closing) p)
      (Rule.items item closing problem) := by
  refine .bind .peek ?_
  rintro token p ⟨ht, rfl⟩
  refine .ite (fun hk => ?_) fun hk => ?_
  · have hp : kindAt tokens p = some closing := by simp [kindAt, ht, hk]
    refine .bind (.pure (Q := fun vs q => vs = #[] ∧ q = p) ⟨rfl, rfl⟩) ?_
    rintro _ _ ⟨rfl, rfl⟩
    refine .bind (.expect ends notEnd fun missing => absurd hp missing) ?_
    rintro _ _ ⟨_, rfl⟩
    exact .pure ⟨.emptyList hp, by simp⟩
  · have hp : kindAt tokens p ≠ some closing := by simpa [kindAt, ht] using hk
    refine .bind (holds.excuse fun _ hf => hf.of_part (fun _ hk => hk.item hp) rfl) ?_
    rintro first q ⟨hf, hv⟩
    refine .bind .tokensLeft ?_
    rintro rounds _ ⟨enough, rfl⟩
    have single : ∀ v ∈ #[first], D.Good v := by simpa using hv
    refine .bind ((moreItems ends holds rounds enough single).excuse fun _ ho =>
      ho.of_part (fun _ hk => ?_) (hf.openAt_eq rfl)) ?_
    · obtain ⟨r, others, _⟩ := hk.others hp hf
      exact ⟨r, others⟩
    rintro vs r ⟨ho, hvs⟩
    refine .bind (.expect ends notEnd fun missing _ _ hk => ?_) ?_
    · obtain ⟨r', others, hc⟩ := hk.others hp hf
      cases ho.eq_end others
      exact missing hc
    rintro _ _ ⟨hc, rfl⟩
    exact .pure ⟨.list hp hf ho hc, by simpa using hvs⟩

theorem array (kind : kindAt tokens p = some .leftBrace) :
    D.Decides (n + 1) .primary p (Rule.array item) := by
  refine .bind (.advance ends kind (by decide)) ?_
  rintro _ _ ⟨_, rfl⟩
  refine .bind ((items ends holds (by decide)).excuse fun _ hf =>
    hf.of_nested (fun _ hk => hk.items kind) (openAt_succ kind)) ?_
  rintro vs q ⟨hr, hvs⟩
  refine .bind .newIdentity ?_
  rintro identity _ rfl
  exact .pure ⟨.array kind hr, D.array hvs⟩

/-- The arguments of a call that starts at `p`; its name has been read. -/
theorem arguments {function : String} (called : CalledAt tokens p)
    (level : openAt tokens (p + 1) = openAt tokens p) :
    RunsInside tokens (D.Refuses (n + 1) .primary p) (p + 1)
      (fun vs q => kindAt tokens (p + 1) = some .leftParen ∧
        D.YieldsAll n (.list .rightParen) (p + 2) vs q)
      (Rule.arguments item function) := by
  refine .bind (.expect ends (by decide) fun missing _ _ hk =>
    missing (hk.arguments called).1) ?_
  rintro _ _ ⟨opening, rfl⟩
  have deeper : openAt tokens (p + 2) = openAt tokens p + 1 := by
    rw [openAt_succ opening, level]
    rfl
  refine .mono (.excuse (items ends holds (by decide)) fun _ hf => ?_) fun _ _ hvs => ⟨opening, hvs⟩
  exact hf.of_nested (fun _ hk => (hk.arguments called).2) deeper

theorem parenthesized (kind : kindAt tokens p = some .leftParen) :
    D.Decides (n + 1) .primary p (Rule.parenthesized item) := by
  refine .bind (.advance ends kind (by decide)) ?_
  rintro _ _ ⟨_, rfl⟩
  refine .bind (holds.excuse fun _ hf =>
    hf.of_nested (fun _ hk => ?_) (openAt_succ kind)) ?_
  · obtain ⟨j, hj, q, inner, _⟩ := hk.inner kind
    exact ⟨j, hj, q, inner⟩
  rintro v q ⟨hr, hv⟩
  refine .bind (.expect ends (by decide) fun missing _ _ hk => ?_) ?_
  · obtain ⟨j, _, q', inner, closing⟩ := hk.inner kind
    cases hr.eq_end inner
    exact missing closing
  rintro _ _ ⟨hc, rfl⟩
  exact .pure ⟨.parenthesized kind hr hc, hv⟩

end

/-! ### Operators -/

section

variable {operand : Eval Value} {rank : Rank} {mode : Mode}
  (holds : ∀ {p}, D.Decides n rank.operand p operand)

include ends holds

theorem chain (rounds : Nat) {left : Value} (enough : tokens.size ≤ p + rounds)
    (hl : D.Good left) :
    D.Decides n (.rest rank) p (Rule.chain operand rank.op? mode rounds left) := by
  induction rounds generalizing p left with
  | zero => exact .noRounds enough
  | succ rounds ih =>
    refine .bind .operator? ?_
    rintro op p ⟨ho, rfl⟩
    cases op with
    | none => exact .pure ⟨.restEnd ho.symm, hl⟩
    | some op =>
      have sign := kindAt_of_bind_operatorAt ho.symm
      have level := openAt_succ_of_turn sign rfl
      refine .bind (.advance ends sign (by decide)) ?_
      rintro _ _ ⟨_, rfl⟩
      refine .bind (holds.excuse fun _ hf =>
        hf.of_part (fun _ hk => hk.operand ho.symm) level) ?_
      rintro right q ⟨hr, hv⟩
      have combined : RunsInside tokens (D.Refuses n (.rest rank) p) q
          (fun v r => D.Good v ∧ r = q) (Rule.combine mode op left right) := by
        have met : Meets (arithmetic op left right) D.Good
            fun cause => D.Refuses n (.rest rank) p (.numeric cause) := D.arithmetic hl hv
        refine .bind (.orNumericFault met) ?_
        rintro result _ ⟨hresult, rfl⟩
        refine .bind .noteStep ?_
        rintro _ _ rfl
        exact .pure ⟨hresult, rfl⟩
      refine .bind combined ?_
      rintro result q ⟨hresult, rfl⟩
      have hle := hr.le
      have rest := (ih (by omega) hresult).excuse fun _ hf =>
        hf.of_part (fun _ hk => hk.more ho.symm hr) ((hr.openAt_eq rank.turn_operand).trans level)
      exact rest.mono fun v r h => ⟨.restMore ho.symm hr h.1, h.2⟩

theorem level : D.Decides n (.level rank) p (Rule.level operand rank.op? mode) := by
  refine .bind (holds.excuse fun _ hf => hf.of_part (fun _ hk => hk.first) rfl) ?_
  rintro left q ⟨hr, hv⟩
  refine .bind .tokensLeft ?_
  rintro rounds q ⟨enough, rfl⟩
  refine .mono (.excuse (chain ends holds rounds enough hv) fun _ hf => ?_)
    fun _ _ h => ⟨.level hr h.1, h.2⟩
  exact hf.of_part (fun _ hk => hk.rest hr) (hr.openAt_eq rank.turn_operand)

end

/-! ### Calls -/

/-- What the rules of an expression may rely on: what is nested in it is decided one level down, and
so are the bodies of lambdas at some level. -/
structure Nests (D : Discipline tokens) (n : Nat) (nested : Nested) : Prop where
  expression : ∀ {p mode scope}, D.Admits mode → D.Keeps scope →
    D.Decides n .expression p (nested.expression mode scope)
  body : ∀ {p scope}, D.Admits .live → D.Keeps scope →
    ∃ m, D.Decides m .expression p (nested.body scope)

section

variable {nested : Nested} {scope : Scope} (nests : Nests D n nested) (live : D.Admits .live)
  (keeps : D.Keeps scope)

include nests live keeps

theorem callLambda {f : Lambda} {argument : Value} {k : Nat}
    (hf : ReadsWithin tokens k .expression f.start f.stop) (ha : D.Good argument) :
    RunsInside tokens D.Allows p (fun v q => D.Good v ∧ q = p)
      (Rule.callLambda nested scope f argument) := by
  have bound : D.Keeps ((f.parameter, argument) :: scope) := keeps.cons ha
  obtain ⟨m, body⟩ := nests.body (p := f.start) live bound
  have inner := body.excuse fun _ h => h.allows live ⟨_, hf⟩
  refine .bind (.elsewhere (hf.lt_size trivial) inner) ?_
  rintro ⟨v, stop⟩ p ⟨⟨hr, hv⟩, _, rfl⟩
  refine .ite (fun elsewhere => ?_) fun _ => .pure ⟨hv, rfl⟩
  exact absurd (hf.eq_end hr) elsewhere

theorem mapLambda {f : Lambda} {items : List Value} {k : Nat}
    (hf : ReadsWithin tokens k .expression f.start f.stop) (h : ∀ v ∈ items, D.Good v) :
    RunsInside tokens D.Allows p (fun vs q => (∀ v ∈ vs, D.Good v) ∧ q = p)
      (items.mapM (Rule.callLambda nested scope f)) := by
  induction items with
  | nil => exact .pure ⟨by simp, rfl⟩
  | cons v rest ih =>
    rw [List.mapM_cons]
    refine .bind (callLambda nests live keeps hf (h v (by simp))) ?_
    rintro u p ⟨hu, rfl⟩
    refine .bind (ih fun w hw => h w (by simp [hw])) ?_
    rintro us _ ⟨hus, rfl⟩
    exact .pure ⟨by simpa using ⟨hu, hus⟩, rfl⟩

theorem applyFunction {function : String} {args : List Value} (hargs : ∀ v ∈ args, D.Good v) :
    RunsInside tokens D.Allows p (fun v q => D.Good v ∧ q = p)
      (Rule.applyFunction nested scope function args) := by
  have newArray : ∀ {q : Nat} {items : List Value}, (∀ v ∈ items, D.Good v) →
      RunsInside tokens D.Allows q (fun v r => D.Good v ∧ r = q) (Eval.newArray items) := by
    intro q items h
    refine .bind .newIdentity ?_
    rintro _ _ rfl
    exact .pure ⟨D.array h, rfl⟩
  refine .ite (fun _ => ?_) fun _ => ?_
  · refine .bind (.orFault (D.mapping live hargs)) ?_
    rintro ⟨items, f⟩ p ⟨⟨hitems, k, hf⟩, rfl⟩
    refine .bind (mapLambda nests live keeps hf hitems) ?_
    rintro vs p ⟨hvs, rfl⟩
    exact newArray hvs
  · split
    · refine .bind (.orFault (D.builtin live hargs)) ?_
      rintro answer p ⟨ha, rfl⟩
      cases answer with
      | value v => exact .pure ⟨ha v (by simp [Answer.values]), rfl⟩
      | newArray items => exact newArray ha
    · exact .fault (D.notInLibrary live _)

end

section

variable {nested : Nested} {mode : Mode} {scope : Scope} (nests : Nests D n nested)
  (admits : D.Admits mode) (keeps : D.Keeps scope)

include ends nests admits keeps

/-- The name of a function was read, and its arguments are next. -/
theorem call {function : String} (name : functionAt tokens p = some function)
    (noLet : function ≠ letName) (noLambda : function ≠ lambdaName) :
    RunsInside tokens (D.Refuses (n + 1) .primary p) (p + 1) (D.Yields (n + 1) .primary p)
      (Rule.call nested mode scope function) := by
  have called : CalledAt tokens p := .inr ⟨function, name, noLet, noLambda⟩
  have level := openAt_succ_of_turn (kindAt_of_functionAt name) rfl
  refine .bind (arguments ends (nests.expression admits keeps) called level) ?_
  rintro args q ⟨hp, hr, hargs⟩
  have reads : ReadsWithin tokens (n + 1) .primary p q := .call name noLet noLambda hp hr
  refine .ite (fun _ => .pure ⟨reads, D.null⟩) fun notDry => ?_
  have live : mode = .live := by
    cases mode with
    | live => rfl
    | dry => exact absurd rfl notDry
  refine .bind ((applyFunction nests (live ▸ admits) keeps hargs).excuse fun _ =>
    Discipline.refuses_of_allows) ?_
  rintro v q ⟨hv, rfl⟩
  refine .bind .noteStep ?_
  rintro _ _ rfl
  exact .pure ⟨reads, hv⟩

theorem unknownCall {function : String} (name : kindAt tokens p = some .identifier)
    (opening : kindAt tokens (p + 1) = some .leftParen) :
    RunsInside tokens (D.Refuses (n + 1) .primary p) (p + 1) (D.Yields (n + 1) .primary p)
      (Rule.unknownCall nested mode scope function) := by
  have level := openAt_succ_of_turn name rfl
  refine .bind (arguments ends (nests.expression admits keeps) (.inl ⟨name, opening⟩) level) ?_
  rintro args q ⟨hp, hr, hargs⟩
  have reads : ReadsWithin tokens (n + 1) .primary p q := .unknownCall name hp hr
  refine .ite (fun _ => ?_) fun _ => .pure ⟨reads, D.null⟩
  refine .bind .notice ?_
  rintro _ _ rfl
  refine .bind .noteStep ?_
  rintro _ _ rfl
  exact .pure ⟨reads, D.null⟩

/-! ### Forms that bind names -/

/-- The bindings of a `LET` were read: its body is next, and nothing else would do. -/
structure Binds (D : Discipline tokens) (n p : Nat) (scope : Scope) (q : Nat) : Prop where
  keeps : D.Keeps scope
  reads : ∀ r, ReadsWithin tokens n .expression q r → ReadsWithin tokens n .bindings p r
  needs : ∀ k, Readable tokens k .bindings p → Readable tokens k .expression q
  level : openAt tokens q = openAt tokens p

theorem bindings (rounds : Nat) (enough : tokens.size ≤ p + rounds) :
    RunsInside tokens (D.Refuses n .bindings p) p (Binds D n p)
      (Rule.bindings nested mode rounds scope) := by
  induction rounds generalizing p scope with
  | zero => exact .noRounds enough
  | succ rounds ih =>
    refine .bind .peek ?_
    rintro token p ⟨ht, rfl⟩
    have body : ¬ BindingAt tokens p → Binds D n p scope p := fun hb =>
      ⟨keeps, fun _ hr => .body hb hr, fun _ hk => hk.body hb, rfl⟩
    refine .ite (fun hk => ?_) fun hk => ?_
    · have hp : kindAt tokens p ≠ some .identifier := by simpa [kindAt, ht] using hk
      exact .pure (body fun hb => hp hb.1)
    · have hp : kindAt tokens p = some .identifier := by simpa [kindAt, ht] using hk
      refine .bind .position ?_
      rintro _ p ⟨rfl, rfl⟩
      refine .bind (.advance ends hp (by decide)) ?_
      rintro name _ ⟨_, rfl⟩
      refine .bind (.accept ends (by decide)) ?_
      rintro _ _ (⟨rfl, hc, rfl⟩ | ⟨rfl, hc, rfl⟩)
      · have hb : BindingAt tokens p := ⟨hp, hc⟩
        have level : openAt tokens (p + 2) = openAt tokens p := by
          rw [openAt_succ_of_turn hc rfl, openAt_succ_of_turn hp rfl]
        refine .bind ((nests.expression admits keeps).excuse fun _ hf =>
          hf.of_part (fun _ hk => hk.value hb) level) ?_
        rintro v q ⟨hr, hv⟩
        have level : openAt tokens q = openAt tokens p := (hr.openAt_eq rfl).trans level
        have bound : D.Keeps ((name.text, v) :: scope) := keeps.cons hv
        have last : kindAt tokens q ≠ some .comma → Binds D n p ((name.text, v) :: scope) q :=
          fun noComma => ⟨bound, fun _ hbody => .lastBinding hb hr noComma hbody,
            fun _ hk => hk.lastBody hb hr noComma, level⟩
        refine .bind .peek ?_
        rintro next q ⟨hn, rfl⟩
        refine .ite (fun hparen => ?_) fun _ => ?_
        · exact .pure (last (by simp [kindAt, hn, hparen]))
        · refine .bind (.accept ends (by decide)) ?_
          rintro _ _ (⟨rfl, hcomma, rfl⟩ | ⟨rfl, noComma, rfl⟩)
          · have hle := hr.le
            have level : openAt tokens (q + 1) = openAt tokens p :=
              (openAt_succ_of_turn hcomma rfl).trans level
            have rest := (ih (p := q + 1) bound (by omega)).excuse fun _ hf =>
              hf.of_part (fun _ hk => hk.moreBindings hb hr hcomma) level
            refine rest.mono fun scope r h => ⟨h.keeps, ?_, ?_, h.level.trans level⟩
            · exact fun _ hbody => .binding hb hr hcomma (h.reads _ hbody)
            · exact fun k hk => h.needs k (hk.moreBindings hb hr hcomma)
          · exact .pure (last noComma)
      · have inside : p < tokens.size := lt_size_of_kindAt hp
        refine .bind (.setPosition inside) ?_
        rintro _ _ rfl
        exact .pure (body fun hb => hc hb.2)

theorem letForm (name : functionAt tokens p = some letName) :
    RunsInside tokens (D.Refuses (n + 1) .primary p) (p + 1) (D.Yields (n + 1) .primary p)
      (Rule.letForm nested mode scope) := by
  refine .bind (.expect ends (by decide) fun missing _ _ hk =>
    missing (hk.bindings name).1) ?_
  rintro _ _ ⟨hp, rfl⟩
  have readable : ∀ k, Readable tokens k .primary p →
      ∃ j, k = j + 1 ∧ Readable tokens j .bindings (p + 2) := by
    intro k hk
    obtain ⟨_, j, hj, q, hb, _⟩ := hk.bindings name
    exact ⟨j, hj, q, hb⟩
  have level : openAt tokens (p + 2) = openAt tokens p + 1 := by
    rw [openAt_succ hp, openAt_succ_of_turn (kindAt_of_functionAt name) rfl]
    rfl
  refine .bind .tokensLeft ?_
  rintro rounds _ ⟨enough, rfl⟩
  refine .bind ((bindings ends nests admits keeps rounds enough).excuse fun _ hf =>
    hf.of_nested readable level) ?_
  rintro scope q hb
  refine .bind ((nests.expression admits hb.keeps).excuse fun _ hf =>
    (hf.of_part hb.needs hb.level).of_nested readable level) ?_
  rintro v r ⟨hr, hv⟩
  refine .bind (.expect ends (by decide) fun missing _ _ hk => ?_) ?_
  · obtain ⟨_, j, _, r', hb', closing⟩ := hk.bindings name
    cases (hb.reads r hr).eq_end hb'
    exact missing closing
  rintro _ _ ⟨hc, rfl⟩
  exact .pure ⟨.letForm name hp (hb.reads r hr) hc, hv⟩

omit admits in
theorem lambdaForm (name : functionAt tokens p = some lambdaName) :
    RunsInside tokens (D.Refuses (n + 1) .primary p) (p + 1) (D.Yields (n + 1) .primary p)
      (Rule.lambdaForm nested scope) := by
  refine .bind (.expect ends (by decide) fun missing _ _ hk =>
    missing (hk.lambdaBody name).1) ?_
  rintro _ _ ⟨hp, rfl⟩
  refine .bind (.expect ends (by decide) fun missing _ _ hk =>
    missing (hk.lambdaBody name).2.1) ?_
  rintro parameter _ ⟨hx, rfl⟩
  refine .bind (.expect ends (by decide) fun missing _ _ hk =>
    missing (hk.lambdaBody name).2.2.1) ?_
  rintro _ _ ⟨hcomma, rfl⟩
  refine .bind .position ?_
  rintro _ _ ⟨rfl, rfl⟩
  have level : openAt tokens (p + 4) = openAt tokens p + 1 := by
    rw [openAt_succ_of_turn hcomma rfl, openAt_succ_of_turn hx rfl, openAt_succ hp,
      openAt_succ_of_turn (kindAt_of_functionAt name) rfl]
    rfl
  refine .bind (.skip ((nests.expression D.dry keeps).excuse fun _ hf =>
    hf.of_nested (fun _ hk => ?_) level)) ?_
  · obtain ⟨_, _, _, j, hj, q, body, _⟩ := hk.lambdaBody name
    exact ⟨j, hj, q, body⟩
  rintro stop _ ⟨⟨v, hr, _⟩, stop_lt, rfl⟩
  refine .bind (.setPosition stop_lt) ?_
  rintro _ stop rfl
  refine .bind (.expect ends (by decide) fun missing _ _ hk => ?_) ?_
  · obtain ⟨_, _, _, j, _, q, body, closing⟩ := hk.lambdaBody name
    cases hr.eq_end body
    exact missing closing
  rintro _ _ ⟨hc, rfl⟩
  refine .bind .newIdentity ?_
  rintro identity _ rfl
  exact .pure ⟨.lambdaForm name hp hx hcomma hr hc, D.lambda hr⟩

/-! ### Operands -/

theorem word {token : Token} (kind : kindAt tokens p = some .identifier) :
    D.Decides (n + 1) .primary p (Rule.word nested mode scope token) := by
  refine .bind (.advance ends kind (by decide)) ?_
  rintro _ _ ⟨_, rfl⟩
  refine .bind .peek ?_
  rintro next _ ⟨hn, rfl⟩
  have hnext : kindAt tokens (p + 1) = some next.kind := by simp [kindAt, hn]
  split
  · exact reference ends admits kind (by simp [*])
  · exact unknownCall ends nests admits keeps kind (by simp [*])
  · have noBracket : kindAt tokens (p + 1) ≠ some .leftBracket := by
      simpa [hnext] using ‹next.kind = .leftBracket → False›
    have noParen : kindAt tokens (p + 1) ≠ some .leftParen := by
      simpa [hnext] using ‹next.kind = .leftParen → False›
    have reads : ReadsWithin tokens (n + 1) .primary p (p + 1) := .name kind noBracket noParen
    unfold Rule.name
    split
    · exact .pure ⟨reads, keeps.lookup ‹_›⟩
    · exact .lookup (fun _ => ⟨reads, D.null⟩) fun live found =>
        ⟨reads, D.found (live ▸ admits) found⟩

theorem function {token : Token} (ht : tokens[p]? = some token) (kind : token.kind = .function) :
    D.Decides (n + 1) .primary p (Rule.function nested mode scope token) := by
  have hp : kindAt tokens p = some .function := by simp [kindAt, ht, kind]
  have hname : functionAt tokens p = some token.text := by simp [functionAt, ht, kind]
  refine .bind (.advance ends hp (by decide)) ?_
  rintro _ _ ⟨_, rfl⟩
  refine .ite (fun hl => ?_) fun noLet => .ite (fun hl => ?_) fun noLambda => ?_
  · exact letForm ends nests admits keeps (hl ▸ hname)
  · exact lambdaForm ends nests keeps (hl ▸ hname)
  · exact call ends nests admits keeps hname noLet noLambda

theorem primary : D.Decides (n + 1) .primary p (Rule.primary nested mode scope) := by
  refine .bind .peek ?_
  rintro token p ⟨ht, rfl⟩
  have hp : kindAt tokens p = some token.kind := by simp [kindAt, ht]
  split
  case h_1 kind =>
    refine .bind (.advance ends (kind ▸ hp) (by decide)) ?_
    rintro _ _ ⟨_, rfl⟩
    have met : Meets (numeralValue token.text) (fun x => D.Good (.ofFinite (.double x)))
        (D.Refuses (n + 1) .primary p) := by
      have met := D.numeral ht kind
      cases hx : numeralValue token.text with
      | ok x => rwa [hx] at met
      | error fault =>
        rw [hx] at met
        exact Discipline.refuses_of_allows met
    refine .bind (.orFault met) ?_
    rintro x _ ⟨hx, rfl⟩
    exact .pure ⟨.number (kind ▸ hp), hx⟩
  case h_2 kind =>
    refine .bind (.advance ends (kind ▸ hp) (by decide)) ?_
    rintro _ _ ⟨_, rfl⟩
    exact .pure ⟨.string (kind ▸ hp), D.text _⟩
  case h_3 kind => exact array ends (nests.expression admits keeps) (kind ▸ hp)
  case h_4 kind => exact word ends nests admits keeps (kind ▸ hp)
  case h_5 kind => exact function ends nests admits keeps ht kind
  case h_6 kind => exact parenthesized ends (nests.expression admits keeps) (kind ▸ hp)
  · refine .fault fun k hk => ?_
    have opens := hk.opens hp
    simp_all
  · refine .fault fun k hk => ?_
    have opens := hk.opens hp
    simp_all

theorem postfixed (sign : operatorAt tokens p ≠ some "-") :
    D.Decides (n + 1) .unary p (Rule.postfixed (Rule.primary nested mode scope) mode) := by
  refine .bind ((primary ends nests admits keeps).excuse fun _ hf =>
    hf.of_part (fun _ hk => hk.unsigned sign) rfl) ?_
  rintro v q ⟨hr, hv⟩
  refine .bind (.acceptOperator ends) ?_
  rintro _ _ (⟨rfl, hs, rfl⟩ | ⟨rfl, hs, rfl⟩)
  · have reads : ReadsWithin tokens (n + 1) .unary p (q + 1) := .percent sign hr hs
    rw [if_pos rfl]
    split
    · have met : Meets (percent _) D.Good
          fun cause => D.Refuses (n + 1) .unary p (.numeric cause) := D.percent hv
      refine .bind (.orNumericFault met) ?_
      rintro result _ ⟨hresult, rfl⟩
      refine .bind .noteStep ?_
      rintro _ _ rfl
      exact .pure ⟨reads, hresult⟩
    · exact .pure ⟨reads, hv⟩
  · exact .pure ⟨.unsigned sign hr hs, hv⟩

theorem signed (rounds : Nat) (enough : tokens.size ≤ p + rounds) :
    D.Decides (n + 1) .unary p
      (Rule.signed (Rule.primary nested mode scope) mode rounds) := by
  induction rounds generalizing p with
  | zero => exact .noRounds enough
  | succ rounds ih =>
    refine .bind (.acceptOperator ends) ?_
    rintro _ _ (⟨rfl, hs, rfl⟩ | ⟨rfl, hs, rfl⟩)
    · refine .bind ((ih (by omega)).excuse fun _ hf =>
        hf.of_part (fun _ hk => hk.negated hs)
          (openAt_succ_of_turn (kindAt_of_operatorAt hs) rfl)) ?_
      rintro v q ⟨hr, hv⟩
      refine .bind .noteStep ?_
      rintro _ _ rfl
      exact .pure ⟨.negation hs hr, D.negate hv⟩
    · exact postfixed ends nests admits keeps hs

theorem unary : D.Decides (n + 1) .unary p (Rule.unary nested mode scope) := by
  refine .bind .tokensLeft ?_
  rintro rounds _ ⟨enough, rfl⟩
  exact signed ends nests admits keeps rounds enough

theorem multiplicative :
    D.Decides (n + 1) (.level .product) p (Rule.multiplicative nested mode scope) := by
  have operand : ∀ {p}, D.Decides (n + 1) Rank.product.operand p (Rule.unary nested mode scope) :=
    unary ends nests admits keeps
  exact level ends operand

theorem additive : D.Decides (n + 1) (.level .sum) p (Rule.additive nested mode scope) := by
  have operand : ∀ {p},
      D.Decides (n + 1) Rank.sum.operand p (Rule.multiplicative nested mode scope) :=
    multiplicative ends nests admits keeps
  exact level ends operand

theorem compared : D.Decides (n + 1) .expression p (Rule.compared nested mode scope) := by
  refine .bind ((additive ends nests admits keeps).excuse fun _ hf =>
    hf.of_part (fun _ hk => hk.left) rfl) ?_
  rintro left q ⟨hr, hv⟩
  refine .bind .operator? ?_
  rintro op q ⟨ho, rfl⟩
  cases op with
  | none => exact .pure ⟨.plain hr ho.symm, hv⟩
  | some op =>
    have sign := kindAt_of_bind_operatorAt ho.symm
    refine .bind (.advance ends sign (by decide)) ?_
    rintro _ _ ⟨_, rfl⟩
    have level : openAt tokens (q + 1) = openAt tokens p :=
      (openAt_succ_of_turn sign rfl).trans (hr.openAt_eq rfl)
    refine .bind ((additive ends nests admits keeps).excuse fun _ hf =>
      hf.of_part (fun _ hk => hk.right hr ho.symm) level) ?_
    rintro right r ⟨hright, hw⟩
    have met : Meets (comparison op left right) (fun _ => True)
        fun cause => D.Refuses (n + 1) .expression p (.numeric cause) := D.comparison hv hw
    refine .bind (.orNumericFault met) ?_
    rintro result _ ⟨_, rfl⟩
    refine .bind .noteStep ?_
    rintro _ _ rfl
    exact .pure ⟨.comparison hr ho.symm hright, D.bool result⟩

end

/-! ### Expressions -/

include ends in
/-- Readings find out whether an expression within their limit starts at a token. -/
theorem expression (depth : Nat) {p : Nat} {mode : Mode} {scope : Scope}
    (admits : D.Admits mode) (keeps : D.Keeps scope) :
    D.Decides depth .expression p (Formula.expression depth mode scope) := by
  have none : ∀ (p : Nat) (mode : Mode) (scope : Scope),
      D.Decides 0 .expression p (Formula.expression 0 mode scope) := by
    intro p mode scope inside c s hc hs
    refine .inr ⟨fun ⟨q, hr⟩ => absurd (hr.pos trivial) (Nat.lt_irrefl 0), p, ?_⟩
    exact Int.le_of_eq (Int.add_zero _)
  match depth with
  | 0 => exact none p mode scope
  | 1 =>
    have nests : Nests D 0
        { expression := Formula.expression 0, body := Formula.expression 0 .live } :=
      ⟨fun {p mode scope} _ _ => none p mode scope, fun {p scope} _ _ => ⟨0, none p .live scope⟩⟩
    exact compared ends nests admits keeps
  | depth + 2 =>
    have nests : Nests D (depth + 1)
        { expression := Formula.expression (depth + 1), body := Formula.expression depth .live } :=
      ⟨fun admits keeps => expression (depth + 1) admits keeps,
        fun admits keeps => ⟨depth, expression depth admits keeps⟩⟩
    exact compared ends nests admits keeps

end Decides

/-! ### Whole rows -/

/-- The whole row but its end mark is an expression in which at most `n` expressions stand one
inside the other. -/
def ReadsRow (tokens : Array Token) (n : Nat) : Prop :=
  ReadsWithin tokens n .expression 0 (tokens.size - 1)

namespace Discipline

variable {tokens : Array Token} (D : Discipline tokens)

/-- The reasons to refuse a whole row. -/
def RefusesRow (n : Nat) : Fault → Prop
  | .malformed _ _ => ∀ k, ¬ ReadsRow tokens k
  | .tooDeep limit => D.Allows (.tooDeep limit) ∨
    ¬ ReadsRow tokens n ∧ ∃ i, (n : Int) ≤ openAt tokens i
  | fault => D.Allows fault

variable {D} {n : Nat} {mode : Mode} {scope : Scope}

theorem Refuses.row {fault : Fault} (h : D.Refuses n .expression 0 fault) :
    D.RefusesRow n fault := by
  cases fault with
  | malformed problem position => exact fun k hk => h k ⟨_, hk⟩
  | tooDeep limit =>
    refine h.imp_right ?_
    rintro ⟨unreadable, i, hi⟩
    exact ⟨fun hk => unreadable ⟨_, hk⟩, i, by simpa [openAt] using hi⟩
  | _ => exact h

/-- A reading of the whole row finds out whether it is an expression within the limit. -/
theorem readAll (ends : EndsOnce tokens) (admits : D.Admits mode) (keeps : D.Keeps scope) :
    RunsInside tokens (D.RefusesRow n) 0 (fun v _ => ReadsRow tokens n ∧ D.Good v)
      (readAll n mode scope) := by
  refine .bind ((Decides.expression ends n admits keeps).excuse fun _ hf => hf.row) ?_
  rintro v q ⟨hr, hv⟩
  refine .bind .peek ?_
  rintro token q ⟨ht, rfl⟩
  have hq : kindAt tokens q = some token.kind := by simp [kindAt, ht]
  have last : token.kind = .endMark ↔ q = tokens.size - 1 := by
    have mark := ends.mark_iff q
    have pos := ends.pos
    rw [hq, Option.some.injEq] at mark
    rw [mark]
    omega
  refine .ite (fun notEnd => ?_) fun atEnd => ?_
  · refine .bind (.fault (Q := fun _ _ => False) fun k hk => ?_) fun _ _ h => h.elim
    exact notEnd (last.mpr (hr.eq_end hk).symm)
  · obtain rfl := last.mp (Decidable.not_not.mp atEnd)
    exact .pure ⟨hr, hv⟩

theorem readsRow_of_evaluate {c : Context} {D : Discipline c.tokens} {v : Value}
    (ends : EndsOnce c.tokens) (admits : D.Admits mode) (keeps : D.Keeps scope)
    (h : (evaluate c mode scope).outcome = .ok v) : ReadsRow c.tokens c.maxDepth.toNat := by
  have run := readAll (n := c.maxDepth.toNat) ends admits keeps ends.pos c (.start scope) rfl rfl
  obtain ⟨s, hr, -⟩ := exists_run_of_value h
  rw [hr] at run
  exact run.2.1

theorem refusesRow_of_evaluate {c : Context} {D : Discipline c.tokens} {fault : Fault}
    (ends : EndsOnce c.tokens) (admits : D.Admits mode) (keeps : D.Keeps scope)
    (h : (evaluate c mode scope).outcome = .error fault) :
    D.RefusesRow c.maxDepth.toNat fault := by
  have run := readAll (n := c.maxDepth.toNat) ends admits keeps ends.pos c (.start scope) rfl rfl
  obtain ⟨s, hr, -⟩ := exists_run_of_fault h
  rw [hr] at run
  exact run

end Discipline

end Quarterly.Formula
