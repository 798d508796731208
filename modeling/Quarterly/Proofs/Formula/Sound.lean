import Quarterly.Proofs.Formula.BigStep
import Quarterly.Proofs.Formula.Faithfulness
import Quarterly.Proofs.Formula.Skipping

/-!
# Live readings evaluate what they read

A live reading that comes back has an evaluation behind it (`Evaluates.of_ok`). The argument goes
through the rules of the grammar and asks of each only what it does when it comes back: `Finds` says
where such a run ends, which identity is free then and what it has looked up.
-/

namespace Quarterly.Formula

/-- The metrics and indexes that a tracing evaluation has looked up. -/
def State.queries (s : State) : List (String × Int) :=
  s.journal.substitutions.toList.map fun x => (x.metric, x.found.index)

/-- Runs that start at the token `p` with `n` as the next free identity. If they come back, `Q`
relates the result, the token and the identity at the end, and what was looked up. -/
def Finds (c : Context) {α : Type} (p n : Nat) (Q : α → Nat → Nat → List (String × Int) → Prop)
    (m : Eval α) : Prop :=
  ∀ s a s', s.position = p → s.nextIdentity = n → m c s = .ok a s' →
    ∃ ls, (c.tracing → s'.queries = s.queries ++ ls) ∧ Q a s'.position s'.nextIdentity ls

namespace Finds

variable {c : Context} {α β : Type} {p n : Nat}

theorem pure {Q : α → Nat → Nat → List (String × Int) → Prop} {a : α} (h : Q a p n []) :
    Finds c p n Q (pure a) := by
  rintro s _ _ rfl rfl ⟨⟩
  exact ⟨[], fun _ => (List.append_nil _).symm, h⟩

theorem throw {Q : α → Nat → Nat → List (String × Int) → Prop} {fault : Fault} :
    Finds c p n Q (throw fault : Eval α) := by
  rintro s a s' _ _ ⟨⟩

/-- Nothing comes back from behind a fault. -/
theorem stopped {Q : β → Nat → Nat → List (String × Int) → Prop} {fault : Fault} {f : α → Eval β} :
    Finds c p n Q ((MonadExcept.throw fault : Eval α) >>= f) := by
  rintro s a s' _ _ ⟨⟩

theorem bind {R : α → Nat → Nat → List (String × Int) → Prop}
    {Q : β → Nat → Nat → List (String × Int) → Prop} {m : Eval α} {f : α → Eval β}
    (hm : Finds c p n R m)
    (hf : ∀ a q k ls, R a q k ls → Finds c q k (fun b r m ls' => Q b r m (ls ++ ls')) (f a)) :
    Finds c p n Q (m >>= f) := by
  intro s b s'' hp hn h
  obtain ⟨a, s', hr, h⟩ := (run_bind_eq_ok c s).mp h
  obtain ⟨ls, looked, first⟩ := hm s a s' hp hn hr
  obtain ⟨ls', looked', last⟩ := hf a _ _ ls first s' b s'' rfl rfl h
  refine ⟨ls ++ ls', fun tracing => ?_, last⟩
  rw [looked' tracing, looked tracing, List.append_assoc]

/-- Weaken what is known of the result. -/
theorem mono {R Q : α → Nat → Nat → List (String × Int) → Prop} {m : Eval α}
    (h : Finds c p n R m) (imp : ∀ a q k ls, R a q k ls → Q a q k ls) : Finds c p n Q m := by
  intro s a s' hp hn hr
  obtain ⟨ls, looked, result⟩ := h s a s' hp hn hr
  exact ⟨ls, looked, imp _ _ _ _ result⟩

/-- Nothing is looked up at first. -/
theorem after {R : α → Nat → Nat → Prop} {Q : β → Nat → Nat → List (String × Int) → Prop}
    {m : Eval α} {f : α → Eval β} (hm : Finds c p n (fun a q k ls => ls = [] ∧ R a q k) m)
    (hf : ∀ a q k, R a q k → Finds c q k Q (f a)) : Finds c p n Q (m >>= f) := by
  refine bind hm ?_
  rintro a q k _ ⟨rfl, first⟩
  exact hf a q k first

/-- Nothing is looked up at last. -/
theorem before {R : α → Nat → Nat → List (String × Int) → Prop}
    {Q : β → Nat → Nat → List (String × Int) → Prop} {m : Eval α} {f : α → Eval β}
    (hm : Finds c p n R m)
    (hf : ∀ a q k ls, R a q k ls →
      Finds c q k (fun b r m ls' => ls' = [] ∧ Q b r m ls) (f a)) : Finds c p n Q (m >>= f) := by
  refine bind hm fun a q k ls first s b s' hp hn h => ?_
  obtain ⟨_, looked, rfl, last⟩ := hf a q k ls first s b s' hp hn h
  refine ⟨[], looked, ?_⟩
  show Q b s'.position s'.nextIdentity (ls ++ [])
  rwa [List.append_nil]

/-- A computation that comes back from every state with its position and next identity known. -/
theorem of_run {R : α → Nat → Nat → Prop} {m : Eval α} {a : State → α} {next : State → State}
    (run : ∀ s, m c s = .ok (a s) (next s)) (quiet : ∀ s, (next s).queries = s.queries)
    (h : ∀ s, s.position = p → s.nextIdentity = n → R (a s) (next s).position (next s).nextIdentity) :
    Finds c p n (fun a q k ls => ls = [] ∧ R a q k) m := by
  intro s b s' hp hn hr
  rw [run] at hr
  cases hr
  exact ⟨[], fun _ => (quiet s).trans (List.append_nil _).symm, rfl, h s hp hn⟩

/-! ### Tokens -/

section

variable {Q : β → Nat → Nat → List (String × Int) → Prop}

theorem position {f : Nat → Eval β} (hf : Finds c p n Q (f p)) :
    Finds c p n Q (Eval.position >>= f) := by
  refine after (R := fun i q k => i = p ∧ q = p ∧ k = n)
    (of_run (fun _ => rfl) (fun _ => rfl) fun _ hp hn => ⟨hp, hp, hn⟩) ?_
  rintro _ _ _ ⟨rfl, rfl, rfl⟩
  exact hf

theorem setPosition {q : Nat} {f : Unit → Eval β} (hf : Finds c q n Q (f ())) :
    Finds c p n Q (Eval.setPosition q >>= f) := by
  refine after (R := fun _ q' k => q' = q ∧ k = n)
    (of_run (fun _ => rfl) (fun _ => rfl) fun _ _ hn => ⟨rfl, hn⟩) ?_
  rintro _ _ _ ⟨rfl, rfl⟩
  exact hf

theorem tokensLeft {f : Nat → Eval β} (hf : ∀ rounds, Finds c p n Q (f rounds)) :
    Finds c p n Q (Eval.tokensLeft >>= f) := by
  refine after (R := fun _ q k => q = p ∧ k = n)
    (of_run (fun _ => rfl) (fun _ => rfl) fun _ hp hn => ⟨hp, hn⟩) ?_
  rintro rounds _ _ ⟨rfl, rfl⟩
  exact hf rounds

theorem newIdentity {f : Nat → Eval β} (hf : Finds c p (n + 1) Q (f n)) :
    Finds c p n Q (Eval.newIdentity >>= f) := by
  refine after (R := fun i q k => i = n ∧ q = p ∧ k = n + 1)
    (of_run (fun _ => rfl) (fun _ => rfl) fun _ hp hn => ⟨hn, hp, congrArg (· + 1) hn⟩) ?_
  rintro _ _ _ ⟨rfl, rfl, rfl⟩
  exact hf

theorem tokenAt {i : Nat} {f : Token → Eval β}
    (hf : ∀ token, c.tokens[i]? = some token → Finds c p n Q (f token)) :
    Finds c p n Q (Eval.tokenAt i >>= f) := by
  intro s b s' hp hn h
  rw [run_bind, run_tokenAt] at h
  cases ht : c.tokens[i]? with
  | none =>
    rw [ht] at h
    cases h
  | some token =>
    rw [ht] at h
    exact hf token ht s b s' hp hn h

theorem peek {f : Token → Eval β}
    (hf : ∀ token, c.tokens[p]? = some token → Finds c p n Q (f token)) :
    Finds c p n Q (Eval.peek >>= f) := by
  unfold Eval.peek
  rw [bind_assoc]
  exact position (tokenAt hf)

theorem advance {token : Token} {f : Token → Eval β} (ht : c.tokens[p]? = some token)
    (notEnd : token.kind ≠ .endMark) (hf : Finds c (p + 1) n Q (f token)) :
    Finds c p n Q (Eval.advance >>= f) := by
  unfold Eval.advance
  rw [bind_assoc]
  refine peek fun token' ht' => ?_
  obtain rfl : token = token' := Option.some.inj (ht.symm.trans ht')
  rw [if_pos notEnd, bind_assoc]
  refine position ?_
  rw [bind_assoc]
  refine setPosition ?_
  rw [pure_bind]
  exact hf

theorem expect {kind : TokenKind} {problem : SyntaxFault} {f : Token → Eval β}
    (notEnd : kind ≠ .endMark)
    (hf : ∀ token, c.tokens[p]? = some token → kindAt c.tokens p = some kind →
      Finds c (p + 1) n Q (f token)) : Finds c p n Q (Eval.expect kind problem >>= f) := by
  unfold Eval.expect
  rw [bind_assoc]
  refine peek fun token ht => ?_
  split
  · rename_i hk
    exact advance ht (hk ▸ notEnd) (hf token ht (by simp [kindAt, ht, hk]))
  · exact stopped

theorem accept {kind : TokenKind} {f : Bool → Eval β} (notEnd : kind ≠ .endMark)
    (yes : kindAt c.tokens p = some kind → Finds c (p + 1) n Q (f true))
    (no : kindAt c.tokens p ≠ some kind → Finds c p n Q (f false)) :
    Finds c p n Q (Eval.accept kind >>= f) := by
  unfold Eval.accept
  rw [bind_assoc]
  refine peek fun token ht => ?_
  split
  · rename_i hk
    rw [bind_assoc]
    refine advance ht (hk ▸ notEnd) ?_
    rw [pure_bind]
    exact yes (by simp [kindAt, ht, hk])
  · rename_i hk
    rw [pure_bind]
    exact no (by simp [kindAt, ht, hk])

theorem acceptOperator {symbol : String} {f : Bool → Eval β}
    (yes : operatorAt c.tokens p = some symbol → Finds c (p + 1) n Q (f true))
    (no : operatorAt c.tokens p ≠ some symbol → Finds c p n Q (f false)) :
    Finds c p n Q (Eval.acceptOperator symbol >>= f) := by
  unfold Eval.acceptOperator
  rw [bind_assoc]
  refine peek fun token ht => ?_
  split
  · rename_i hk
    rw [bind_assoc]
    refine advance ht (by simp [hk.1]) ?_
    rw [pure_bind]
    exact yes (by simp [operatorAt, ht, hk])
  · rename_i hk
    rw [pure_bind]
    exact no (by simpa [operatorAt, ht] using hk)

theorem operator? {γ : Type} {ofSymbol? : String → Option γ} {f : Option γ → Eval β}
    (hf : Finds c p n Q (f ((operatorAt c.tokens p).bind ofSymbol?))) :
    Finds c p n Q (Eval.operator? ofSymbol? >>= f) := by
  unfold Eval.operator?
  rw [bind_assoc]
  refine peek fun token ht => ?_
  have next : (operatorAt c.tokens p).bind ofSymbol? =
      if token.kind = .operator then ofSymbol? token.text else none := by
    by_cases hk : token.kind = .operator <;> simp [operatorAt, ht, hk]
  rw [pure_bind, ← next]
  exact hf

/-! ### Faults and notes -/

theorem orFault {x : Except Fault α} {f : α → Eval β}
    (hf : ∀ a, x = .ok a → Finds c p n Q (f a)) : Finds c p n Q (Eval.orFault x >>= f) := by
  cases x with
  | ok a => exact hf a rfl
  | error fault => exact stopped

theorem orNumericFault {x : Except NumericFault α} {f : α → Eval β}
    (hf : ∀ a, x = .ok a → Finds c p n Q (f a)) :
    Finds c p n Q (Eval.orNumericFault x >>= f) := by
  cases x with
  | ok a => exact hf a rfl
  | error cause => exact stopped

theorem noteStep {mode : Mode} {step : Step} {f : Unit → Eval β} (hf : Finds c p n Q (f ())) :
    Finds c p n Q (Eval.noteStep mode step >>= f) := by
  refine after (R := fun _ q k => q = p ∧ k = n)
    (of_run (run_noteStep c · mode step) (fun s => ?_) fun _ hp hn => ⟨hp, hn⟩) ?_
  · unfold State.queries Journal.stepped
    dsimp only
    split <;> rfl
  · rintro _ _ _ ⟨rfl, rfl⟩
    exact hf

theorem notice {notice : Notice} {f : Unit → Eval β} (hf : Finds c p n Q (f ())) :
    Finds c p n Q (Eval.notice notice >>= f) := by
  refine after (R := fun _ q k => q = p ∧ k = n)
    (of_run (run_notice c · notice) (fun _ => rfl) fun _ hp hn => ⟨hp, hn⟩) ?_
  rintro _ _ _ ⟨rfl, rfl⟩
  exact hf

end

/-! ### Readings within readings -/

theorem read {Q : β → Nat → Nat → List (String × Int) → Prop} {f : Context → Eval β}
    (hf : Finds c p n Q (f c)) : Finds c p n Q (do f (← read)) :=
  hf

theorem lookup {Q : Value → Nat → Nat → List (String × Int) → Prop} {metric : String} {index : Int}
    {reference : String}
    (h : Q (lookupValue (c.table.resolve metric index)) p n [(metric, index)]) :
    Finds c p n Q (Rule.lookup .live metric index reference) := by
  intro s v s' hp hn hr
  rw [run_lookup_live] at hr
  cases hr
  refine ⟨_, fun tracing => ?_, hp ▸ hn ▸ h⟩
  simp [State.queries, Journal.lookedUp, tracing, Metric.Table.index_resolve]

/-- A lambda body is read from its start and the reading comes back. -/
theorem elsewhere {start : Nat} {R : α → Nat → Nat → List (String × Int) → Prop}
    {Q : β → Nat → Nat → List (String × Int) → Prop} {inner : Eval α} {f : α × Nat → Eval β}
    (hi : Finds c start n R inner)
    (hf : ∀ a stop k ls, R a stop k ls →
      Finds c p k (fun b r m ls' => Q b r m (ls ++ ls')) (f (a, stop))) :
    Finds c p n Q (Eval.elsewhere start inner >>= f) := by
  refine bind (R := fun a q k ls => R a.1 a.2 k ls ∧ q = p) ?_ ?_
  · intro s a s' hp hn h
    unfold Eval.elsewhere at h
    cases hr : inner c { s with position := start } with
    | error fault s₁ =>
      rw [hr] at h
      cases h
    | ok b s₁ =>
      rw [hr] at h
      cases h
      obtain ⟨ls, looked, result⟩ := hi { s with position := start } b s₁ rfl hn hr
      exact ⟨ls, looked, result, hp⟩
  · rintro ⟨a, stop⟩ _ k ls ⟨result, rfl⟩
    exact hf a stop k ls result

end Finds

/-- A value that a task comes to. -/
def Task.Gives (c : Context) (task : Task) (scope : Scope) (p n : Nat) (v : Value) (q k : Nat)
    (ls : List (String × Int)) : Prop :=
  Evaluates c.tokens c.table task scope p n q k ls [v]

/-- What the rules of an expression may rely on. -/
structure Nested.Sound (c : Context) (nested : Nested) : Prop where
  expression : ∀ {p n scope},
    Finds c p n (Task.expression.Gives c scope p n) (nested.expression .live scope)
  body : ∀ {p n scope}, Finds c p n (Task.expression.Gives c scope p n) (nested.body scope)
  skip : ∀ {p n scope}, Finds c p n
    (fun stop q k ls => ls = [] ∧ Reads c.tokens .expression p stop ∧ q = p ∧ k = n)
    (Rule.skip nested scope)

namespace Nested.Sound

variable {c : Context} {nested : Nested} (h : nested.Sound c) {scope : Scope} {p n : Nat}

include h

/-! ### Lists of expressions -/

theorem moreItems {closing : TokenKind} {problem : SyntaxFault} (notEnd : closing ≠ .endMark)
    (rounds : Nat) (before : Array Value) :
    Finds c p n
      (fun vs q k ls => ∃ us, vs = before.toList ++ us ∧
        Evaluates c.tokens c.table (.others closing) scope p n q k ls us)
      (do
        let values ← Rule.moreItems (nested.expression .live scope) rounds before
        let _ ← Eval.expect closing problem
        return values.toList) := by
  induction rounds generalizing p n before with
  | zero => exact .stopped
  | succ rounds ih =>
    unfold Rule.moreItems
    rw [bind_assoc]
    refine .accept (by decide) (fun comma => ?_) fun noComma => ?_
    · rw [if_pos rfl, bind_assoc]
      refine .bind h.expression fun v q k ls item => ?_
      refine .mono (ih (before.push v)) ?_
      rintro _ r m ls' ⟨us, rfl, rest⟩
      exact ⟨v :: us, by simp, .others comma item rest⟩
    · rw [if_neg (by simp), pure_bind]
      refine .expect notEnd fun _ _ kind => ?_
      exact .pure ⟨[], by simp, .noOthers noComma kind⟩

theorem items {closing : TokenKind} {problem : SyntaxFault} (notEnd : closing ≠ .endMark) :
    Finds c p n
      (fun vs q k ls => Evaluates c.tokens c.table (.list closing) scope p n q k ls vs)
      (Rule.items (nested.expression .live scope) closing problem) := by
  refine .peek fun token ht => ?_
  split
  · refine .expect notEnd fun _ _ kind => ?_
    exact .pure (.emptyList kind)
  · rename_i other
    refine .bind h.expression fun v q k ls first => ?_
    refine .tokensLeft fun rounds => ?_
    refine .mono (h.moreItems notEnd rounds #[v]) ?_
    rintro _ r m ls' ⟨us, rfl, others⟩
    exact .list (by simpa [kindAt, ht] using other) first others

theorem arguments {function : String} {Q : List Value → Nat → Nat → List (String × Int) → Prop}
    (hq : ∀ vs q k ls, kindAt c.tokens p = some .leftParen →
      Evaluates c.tokens c.table (.list .rightParen) scope (p + 1) n q k ls vs → Q vs q k ls) :
    Finds c p n Q (Rule.arguments (nested.expression .live scope) function) := by
  refine .expect (by decide) fun _ _ opening => ?_
  exact .mono (h.items (by decide)) fun vs q k ls items => hq vs q k ls opening items

/-! ### Calls -/

theorem callLambda {f : Lambda} {argument : Value} :
    Finds c p n
      (fun v q k ls => q = p ∧ Evaluates c.tokens c.table .expression
        ((f.parameter, argument) :: scope) f.start n f.stop k ls [v])
      (Rule.callLambda nested scope f argument) := by
  refine .elsewhere h.body fun v stop k ls body => ?_
  dsimp only
  split
  · exact .tokenAt fun _ _ => .stopped
  · rename_i same
    obtain rfl : stop = f.stop := not_not.mp same
    refine .pure ?_
    rw [List.append_nil]
    exact ⟨rfl, body⟩

theorem calls {f : Lambda} {args : List Value} :
    Finds c p n
      (fun us q k ls => q = p ∧ Evaluates c.tokens c.table (.calls f args) scope p n p k ls us)
      (args.mapM (Rule.callLambda nested scope f)) := by
  induction args generalizing n with
  | nil => exact .pure ⟨rfl, .noCalls⟩
  | cons v args ih =>
    rw [List.mapM_cons]
    refine .bind h.callLambda ?_
    rintro u _ k ls ⟨rfl, body⟩
    refine .before ih ?_
    rintro us _ m ls' ⟨rfl, rest⟩
    exact .pure ⟨rfl, rfl, .calls body rest⟩

theorem applyFunction {name : String} {q k : Nat} {ls : List (String × Int)} {vs : List Value}
    (function : functionAt c.tokens p = some name) (noLet : name ≠ letName)
    (noLambda : name ≠ lambdaName) (opening : kindAt c.tokens (p + 1) = some .leftParen)
    (arguments : Evaluates c.tokens c.table (.list .rightParen) scope (p + 2) n q k ls vs) :
    Finds c q k (fun v r m ls' => (Task.primary .function).Gives c scope p n v r m (ls ++ ls'))
      (Rule.applyFunction nested scope name vs) := by
  unfold Rule.applyFunction
  split
  · rename_i isMap
    subst isMap
    refine .orFault fun r mapping => ?_
    refine .before h.calls ?_
    rintro us _ m ls' ⟨rfl, calls⟩
    exact .newIdentity (.pure ⟨rfl, .map function opening arguments mapping calls⟩)
  · rename_i noMap
    cases known : Builtin.ofName? name with
    | none => exact .throw
    | some builtin =>
      refine .orFault fun answer applied => ?_
      have result := Evaluates.call function noMap noLet noLambda known opening arguments applied
      rw [← List.append_nil ls] at result
      cases answer with
      | value v => exact .pure result
      | newArray items => exact .newIdentity (.pure result)

theorem call {name : String} (function : functionAt c.tokens p = some name)
    (noLet : name ≠ letName) (noLambda : name ≠ lambdaName) :
    Finds c (p + 1) n ((Task.primary .function).Gives c scope p n) (Rule.call nested .live scope name) := by
  refine .bind (h.arguments fun vs q k ls opening items => And.intro opening items) ?_
  rintro vs q k ls ⟨opening, arguments⟩
  rw [if_neg (by simp)]
  refine .before (h.applyFunction function noLet noLambda opening arguments) ?_
  intro v r m ls' result
  exact .noteStep (.pure ⟨rfl, result⟩)

theorem unknownCall {name : String} (kind : kindAt c.tokens p = some .identifier) :
    Finds c (p + 1) n ((Task.primary .identifier).Gives c scope p n)
      (Rule.unknownCall nested .live scope name) := by
  refine .before (h.arguments fun vs q k ls opening items => And.intro opening items) ?_
  rintro vs q k ls ⟨opening, arguments⟩
  rw [if_pos rfl]
  exact .notice (.noteStep (.pure ⟨rfl, .unknownCall kind opening arguments⟩))

/-! ### Forms that bind names -/

theorem bindings (rounds : Nat) :
    Finds c p n (Task.bindings.Gives c scope p n)
      (do
        let scope ← Rule.bindings nested .live rounds scope
        let body ← nested.expression .live scope
        let _ ← Eval.expect .rightParen .letNotClosed
        return body) := by
  have ends {scope : Scope} {p n : Nat} {Q : Value → Nat → Nat → List (String × Int) → Prop}
      (hq : ∀ v q k ls, Evaluates c.tokens c.table .expression scope p n q k ls [v] →
        kindAt c.tokens q = some .rightParen → Q v (q + 1) k ls) :
      Finds c p n Q (do
        let body ← nested.expression .live scope
        let _ ← Eval.expect .rightParen .letNotClosed
        return body) := by
    refine .before h.expression fun v q k ls body => ?_
    exact .expect (by decide) fun _ _ closing => .pure ⟨rfl, hq v q k ls body closing⟩
  induction rounds generalizing p n scope with
  | zero => exact .stopped
  | succ rounds ih =>
    unfold Rule.bindings
    rw [bind_assoc]
    refine .peek fun token ht => ?_
    split
    · rename_i kind
      have noBinding : ¬ BindingAt c.tokens p := fun next => kind (by simpa [kindAt, ht] using next.1)
      exact ends fun v q k ls body closing => .body noBinding body closing
    rename_i kind
    have name : token.kind = .identifier := not_not.mp kind
    have word : wordAt c.tokens p = some ⟨.identifier, token.text⟩ := by
      simp [wordAt, ht, Token.word, name]
    rw [bind_assoc]
    refine .position ?_
    rw [bind_assoc]
    refine .advance ht (by simp [name]) ?_
    rw [bind_assoc]
    refine .accept (by decide) (fun comma => ?_) fun noComma => ?_
    · rw [if_pos rfl, bind_assoc]
      refine .bind h.expression fun v q k ls value => ?_
      rw [bind_assoc]
      refine .peek fun next hn => ?_
      have last (noComma : kindAt c.tokens q ≠ some .comma) (u : Value) (r m : Nat)
          (ls' : List (String × Int))
          (body : Evaluates c.tokens c.table .expression ((token.text, v) :: scope) q k r m ls' [u])
          (closing : kindAt c.tokens r = some .rightParen) :
          Task.bindings.Gives c scope p n u (r + 1) m (ls ++ ls') :=
        .lastBinding word comma value noComma body closing
      split
      · rename_i closes
        rw [pure_bind]
        exact ends (last (by simp [kindAt, hn, closes]))
      · rw [bind_assoc]
        refine .accept (by decide) (fun comma' => ?_) fun noComma => ?_
        · rw [if_pos rfl]
          refine .mono ih fun u r m ls' rest => ?_
          exact .binding word comma value comma' rest
        · rw [if_neg (by simp), pure_bind]
          exact ends (last noComma)
    · rw [if_neg (by simp), bind_assoc]
      refine .setPosition ?_
      exact ends fun v q k ls body closing => .body (fun next => noComma next.2) body closing

theorem letForm (function : functionAt c.tokens p = some letName) :
    Finds c (p + 1) n ((Task.primary .function).Gives c scope p n) (Rule.letForm nested .live scope) := by
  refine .expect (by decide) fun _ _ opening => ?_
  refine .tokensLeft fun rounds => ?_
  exact .mono (h.bindings rounds) fun v q k ls bindings => .letForm function opening bindings

theorem lambdaForm (function : functionAt c.tokens p = some lambdaName) :
    Finds c (p + 1) n ((Task.primary .function).Gives c scope p n) (Rule.lambdaForm nested scope) := by
  refine .expect (by decide) fun _ _ opening => ?_
  refine .expect (by decide) fun token ht kind => ?_
  have word : wordAt c.tokens (p + 2) = some ⟨.identifier, token.text⟩ := by
    simpa [wordAt, kindAt, ht, Token.word] using kind
  refine .expect (by decide) fun _ _ comma => ?_
  refine .position ?_
  refine .after h.skip ?_
  rintro stop _ _ ⟨body, rfl, rfl⟩
  refine .setPosition (.expect (by decide) fun _ _ closing => .newIdentity (.pure ?_))
  exact .lambdaForm function opening word comma body closing

/-! ### Operands -/

omit h in
theorem number {token : Token} (ht : c.tokens[p]? = some token) (kind : token.kind = .number) :
    Finds c p n ((Task.primary .number).Gives c scope p n) (Rule.number token) := by
  refine .advance ht (by simp [kind]) (.orFault fun x numeral => .pure ?_)
  exact .number (by simp [wordAt, ht, Token.word, kind]) numeral

omit h in
theorem reference {token : Token} (word : wordAt c.tokens p = some ⟨.identifier, token.text⟩)
    (opening : kindAt c.tokens (p + 1) = some .leftBracket) :
    Finds c (p + 1) n ((Task.primary .identifier).Gives c scope p n) (Rule.reference .live token) := by
  obtain ⟨bracket, hb, opens⟩ := Option.map_eq_some_iff.mp opening
  refine .advance hb (by simp [opens]) (.peek fun index hi => .orFault fun i counted => ?_)
  have notEnd : index.kind ≠ .endMark := by
    rcases kind_of_quarterIndex counted with kind | kind <;> simp [kind]
  refine .advance hi notEnd (.expect (by decide) fun closing _ closes => .read (.lookup ?_))
  exact .reference word opening (by simp [wordAt, hi]) (quarterIndex_word counted) closes

theorem word {token : Token} (ht : c.tokens[p]? = some token) (kind : token.kind = .identifier) :
    Finds c p n ((Task.primary .identifier).Gives c scope p n) (Rule.word nested .live scope token) := by
  have word : wordAt c.tokens p = some ⟨.identifier, token.text⟩ := by
    simp [wordAt, ht, Token.word, kind]
  refine .advance ht (by simp [kind]) (.peek fun next hn => ?_)
  split
  · exact reference word (by simp [kindAt, *])
  · exact h.unknownCall (kindAt_of_wordAt word)
  · have noBracket : kindAt c.tokens (p + 1) ≠ some .leftBracket := by simpa [kindAt, hn]
    have noParen : kindAt c.tokens (p + 1) ≠ some .leftParen := by simpa [kindAt, hn]
    unfold Rule.name
    cases binding : scope.lookup token.text with
    | some v => exact .pure (.bound word noBracket noParen binding)
    | none => exact .lookup (.metric word noBracket noParen binding)

theorem function {token : Token} (ht : c.tokens[p]? = some token) (kind : token.kind = .function) :
    Finds c p n ((Task.primary .function).Gives c scope p n) (Rule.function nested .live scope token) := by
  have function : functionAt c.tokens p = some token.text := by simp [functionAt, ht, kind]
  refine .advance ht (by simp [kind]) ?_
  split
  · rename_i isLet
    exact h.letForm (isLet ▸ function)
  · split
    · rename_i isLambda
      exact h.lambdaForm (isLambda ▸ function)
    · exact h.call function ‹_› ‹_›

theorem primary :
    Finds c p n (fun v q k ls => ∃ kind, (Task.primary kind).Gives c scope p n v q k ls)
      (Rule.primary nested .live scope) := by
  refine .peek fun token ht => ?_
  split
  · exact .mono (number ht ‹_›) fun _ _ _ _ value => ⟨_, value⟩
  · rename_i kind
    refine .advance ht (by simp [kind]) (.pure ⟨.string, .string ?_⟩)
    simp [wordAt, ht, Token.word, kind]
  · rename_i kind
    refine .advance ht (by simp [kind]) (.before (h.items (by decide)) fun vs q k ls items => ?_)
    exact .newIdentity (.pure ⟨rfl, .leftBrace, .array (by simp [kindAt, ht, kind]) items⟩)
  · exact .mono (h.word ht ‹_›) fun _ _ _ _ value => ⟨_, value⟩
  · exact .mono (h.function ht ‹_›) fun _ _ _ _ value => ⟨_, value⟩
  · rename_i kind
    refine .advance ht (by simp [kind]) (.before h.expression fun v q k ls inner => ?_)
    refine .expect (by decide) fun _ _ closing => .pure ⟨rfl, .leftParen, ?_⟩
    exact .parenthesized (by simp [kindAt, ht, kind]) inner closing
  · exact .throw
  · exact .throw

theorem postfixed (sign : operatorAt c.tokens p ≠ some "-") :
    Finds c p n (Task.unary.Gives c scope p n)
      (Rule.postfixed (Rule.primary nested .live scope) .live) := by
  refine .before h.primary ?_
  rintro v q k ls ⟨kind, operand⟩
  refine .acceptOperator (fun next => ?_) fun next => .pure ⟨rfl, .unsigned sign operand next⟩
  rw [if_pos rfl]
  cases v with
  | number x =>
    refine .orNumericFault fun u divided => .noteStep (.pure ⟨rfl, ?_⟩)
    exact .percent sign operand next divided
  | _ => exact .pure ⟨rfl, .percent sign operand next rfl⟩

theorem signed (rounds : Nat) :
    Finds c p n (Task.unary.Gives c scope p n)
      (Rule.signed (Rule.primary nested .live scope) .live rounds) := by
  induction rounds generalizing p with
  | zero => exact .throw
  | succ rounds ih =>
    refine .acceptOperator (fun next => ?_) fun next => ?_
    · refine .before ih fun v q k ls operand => ?_
      exact .noteStep (.pure ⟨rfl, .negation next operand⟩)
    · exact h.postfixed next

theorem unary : Finds c p n (Task.unary.Gives c scope p n) (Rule.unary nested .live scope) :=
  .tokensLeft fun rounds => h.signed rounds

/-! ### Operators -/

omit h in
theorem chain {rank : Rank} {operand : Eval Value}
    (ho : ∀ {p n}, Finds c p n (rank.task.Gives c scope p n) operand) (rounds : Nat)
    (left : Value) :
    Finds c p n ((Task.rest rank left).Gives c scope p n)
      (Rule.chain operand rank.op? .live rounds left) := by
  induction rounds generalizing p n left with
  | zero => exact .throw
  | succ rounds ih =>
    refine .operator? ?_
    cases next : (operatorAt c.tokens p).bind rank.op? with
    | none => exact .pure (.restEnd next)
    | some op =>
      obtain ⟨token, ht, kind⟩ := Option.map_eq_some_iff.mp (kindAt_of_bind_operatorAt next)
      refine .advance ht (by simp [kind]) (.bind ho fun b q k ls operand => ?_)
      unfold Rule.combine
      rw [bind_assoc]
      refine .orNumericFault fun v combined => ?_
      rw [bind_assoc]
      refine .noteStep ?_
      rw [pure_bind]
      exact .mono (ih v) fun u r m ls' rest => .restMore next operand combined rest

omit h in
theorem level {rank : Rank} {operand : Eval Value}
    (ho : ∀ {p n}, Finds c p n (rank.task.Gives c scope p n) operand) :
    Finds c p n ((Task.level rank).Gives c scope p n) (Rule.level operand rank.op? .live) := by
  refine .bind ho fun a q k ls first => .tokensLeft fun rounds => ?_
  exact .mono (chain ho rounds a) fun v r m ls' rest => .level first rest

theorem additive :
    Finds c p n ((Task.level .sum).Gives c scope p n) (Rule.additive nested .live scope) := by
  have product {p n} : Finds c p n ((Task.level .product).Gives c scope p n)
      (Rule.multiplicative nested .live scope) := level h.unary
  exact level product

theorem compared :
    Finds c p n (Task.expression.Gives c scope p n) (Rule.compared nested .live scope) := by
  refine .bind h.additive fun a q k ls left => .operator? ?_
  cases next : (operatorAt c.tokens q).bind ComparisonOp.ofSymbol? with
  | none =>
    refine .pure ?_
    rw [List.append_nil]
    exact .plain left next
  | some op =>
    obtain ⟨token, ht, kind⟩ := Option.map_eq_some_iff.mp (kindAt_of_bind_operatorAt next)
    refine .advance ht (by simp [kind]) (.before h.additive fun b r m ls' right => ?_)
    refine .orNumericFault fun result compared => .noteStep (.pure ⟨rfl, ?_⟩)
    exact .comparison left next right compared

end Nested.Sound

theorem Finds.skip {c : Context} (depth : Nat) {body : Scope → Eval Value} {p n : Nat}
    {scope : Scope} : Finds c p n
      (fun stop q k ls => ls = [] ∧ Reads c.tokens .expression p stop ∧ q = p ∧ k = n)
      (Rule.skip { expression := Formula.expression depth, body } scope) := by
  intro s stop s' hp hn h
  rw [run_skip] at h
  dsimp only at h
  have quiet := journal_of_dry depth scope c s
  cases hr : Formula.expression depth .dry scope c s with
  | error fault s₁ =>
    rw [hr] at h
    cases h
  | ok v s₁ =>
    rw [hr] at h quiet
    cases h
    have same : s₁.journal = s.journal := quiet
    have queries : s₁.queries = s.queries := by rw [State.queries, same, State.queries]
    exact ⟨[], fun _ => queries.trans (List.append_nil _).symm, rfl, hp ▸ Reads.of_ok hr, hp, hn⟩

/-- A live reading of an expression finds what the expression comes to. -/
theorem Finds.expression {c : Context} (depth : Nat) {p n : Nat} {scope : Scope} :
    Finds c p n (Task.expression.Gives c scope p n) (Formula.expression depth .live scope) := by
  induction depth using Nat.strongRecOn generalizing p n scope with
  | ind depth ih =>
    cases depth with
    | zero =>
      rintro s a s' _ _ ⟨⟩
    | succ depth =>
      rw [expression_succ]
      exact Nested.Sound.compared
        ⟨ih depth (Nat.lt_succ_self _), ih (depth - 1) (by omega), Finds.skip depth⟩

/-- A live reading that comes back has evaluated an expression. -/
theorem Evaluates.of_ok {c : Context} {depth : Nat} {scope : Scope} {s s' : State} {v : Value}
    (h : expression depth .live scope c s = .ok v s') :
    ∃ ls, (c.tracing → s'.queries = s.queries ++ ls) ∧
      Evaluates c.tokens c.table .expression scope s.position s.nextIdentity s'.position
        s'.nextIdentity ls [v] :=
  Finds.expression depth s v s' rfl rfl h

theorem Finds.readAll {c : Context} (depth : Nat) {p n : Nat} {scope : Scope} :
    Finds c p n (Task.expression.Gives c scope p n) (Formula.readAll depth .live scope) := by
  refine .before (Finds.expression depth) fun v q k ls value => .peek fun token _ => ?_
  split
  · exact .stopped
  · exact .pure ⟨rfl, value⟩

/-- A formula that evaluates has been evaluated from its first token on. -/
theorem Evaluates.of_evaluate {c : Context} {scope : Scope} {v : Value}
    (h : (evaluate c .live scope).outcome = .ok v) :
    ∃ q k ls, Evaluates c.tokens c.table .expression scope 0
      (Value.itemsIdentityBound (scope.map (·.2))) q k ls [v] := by
  obtain ⟨s, run, -⟩ := exists_run_of_value h
  obtain ⟨ls, -, value⟩ := Finds.readAll c.maxDepth.toNat _ _ _ rfl rfl run
  exact ⟨s.position, s.nextIdentity, ls, value⟩

end Quarterly.Formula
