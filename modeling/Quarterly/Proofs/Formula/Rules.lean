import Quarterly.Proofs.Formula.Grammar
import Quarterly.Proofs.Formula.Invariant
import Quarterly.Proofs.Formula.Run

/-!
# The rules of the grammar as programs

The rules of the grammar put readings of their parts together. A `RuleLogic` is a way to reason
about readings that knows how to deal with the few computations that the rules are made of: moving
past a token, reading a reference with its brackets, looking for a binding, noting, calling a
lambda. `RuleLogic.expression` then holds in it: what is read is a phrase of the grammar, and its
value keeps the invariant of the logic.

A reference is dealt with as a whole, so a logic may tell what a stretch of tokens amounts to
without saying anything of the places inside a reference, where the look-up is still to come. For
the same reason a name that turns out not to be bound is no step: the reading goes back to it.
-/

namespace Quarterly.Formula

/-! ### What the tokens give rise to -/

section

variable (tokens : Array Token)

/-- The name at a position. -/
def nameAt (p : Nat) : Option String :=
  tokens[p]?.bind fun token => if token.kind = .identifier then some token.text else none

/-- Whether a name and a bracket are next, as at the start of a reference. -/
def BracketAt (p : Nat) : Prop :=
  kindAt tokens p = some .identifier ∧ kindAt tokens (p + 1) = some .leftBracket

/-- A name that is no function stands in front of a parenthesis. -/
def CallsUnknown (name : String) : Prop :=
  ∃ p, nameAt tokens p = some name ∧ kindAt tokens (p + 1) = some .leftParen

/-- Some token calls a function that the library does not have. -/
def CallsMissing (name : String) : Prop :=
  ∃ p, functionAt tokens p = some name ∧ name ≠ letName ∧ name ≠ lambdaName ∧ name ≠ mapName ∧
    Builtin.ofName? name = none

end

theorem kindAt_of_nameAt {tokens : Array Token} {p : Nat} {name : String}
    (h : nameAt tokens p = some name) : kindAt tokens p = some .identifier := by
  unfold nameAt at h
  unfold kindAt
  grind

theorem nameAt_of_token {tokens : Array Token} {p : Nat} {token : Token}
    (ht : tokens[p]? = some token) (kind : token.kind = .identifier) :
    nameAt tokens p = some token.text := by
  simp [nameAt, ht, kind]

/-- What is an index between brackets. -/
theorem index_of_quarterIndex {token : Token} {index : Int}
    (h : Rule.quarterIndex token = .ok index) :
    (token.kind = .identifier ∧ (wordIndex? token.text).isSome = true) ∨ token.kind = .number := by
  unfold Rule.quarterIndex at h
  split at h
  · rename_i word
    split at h
    · rename_i named
      exact .inl ⟨word, by rw [named]; rfl⟩
    · cases h
  · exact .inr ‹_›
  · cases h

/-- Why a token is no index between brackets: it is neither a number nor the name of a quarter, or
it is a number that has no value or none that can be cut off. -/
theorem fault_quarterIndex {token : Token} {fault : Fault}
    (h : Rule.quarterIndex token = .error fault) :
    (fault = .malformed .noQuarterIndex token.position ∧ token.kind ≠ .number ∧
      (token.kind = .identifier → wordIndex? token.text = none)) ∨
    token.kind = .number ∧
      (numeralValue token.text = .error fault ∨ ∃ cause, fault = .numeric cause) := by
  unfold Rule.quarterIndex at h
  split at h
  · rename_i word
    split at h <;> cases h
    exact .inl ⟨rfl, by simp [word], fun _ => ‹_›⟩
  · rename_i number
    rcases Except.bind_eq_error.mp h with noValue | ⟨x, -, outOfRange⟩
    · exact .inr ⟨number, .inl noValue⟩
    · obtain ⟨cause, -, rfl⟩ := Except.mapError_eq_error.mp outOfRange
      exact .inr ⟨number, .inr ⟨cause, rfl⟩⟩
  · rename_i noWord noNumber
    cases h
    exact .inl ⟨rfl, noNumber, fun word => absurd word noWord⟩

theorem kind_of_quarterIndex {token : Token} {index : Int}
    (h : Rule.quarterIndex token = .ok index) :
    token.kind = .identifier ∨ token.kind = .number :=
  (index_of_quarterIndex h).imp_left And.left

/-- A fault that does not say that the body of a lambda ended in an unexpected place. -/
def Fault.Ordinary (fault : Fault) : Prop :=
  ∀ position, fault ≠ .malformed .lambdaEndsElsewhere position

/-- An ordinary fault that does not miss more in the library than what the tokens call. -/
structure Fault.Founded (tokens : Array Token) (fault : Fault) : Prop where
  ordinary : fault.Ordinary
  called : ∀ name, fault = .notInLibrary name → CallsMissing tokens name

namespace Fault.Founded

variable {tokens : Array Token}

theorem malformed {problem : SyntaxFault} {position : Nat}
    (h : problem ≠ .lambdaEndsElsewhere) : Founded tokens (.malformed problem position) where
  ordinary _ hf := h (by injection hf)
  called _ hf := by cases hf

theorem numeric (cause : NumericFault) : Founded tokens (.numeric cause) where
  ordinary _ hf := by cases hf
  called _ hf := by cases hf

theorem notANumeral (text : String) : Founded tokens (.notANumeral text) where
  ordinary _ hf := by cases hf
  called _ hf := by cases hf

theorem tooDeep (limit : Int) : Founded tokens (.tooDeep limit) where
  ordinary _ hf := by cases hf
  called _ hf := by cases hf

theorem pastLastToken : Founded tokens .pastLastToken where
  ordinary _ hf := by cases hf
  called _ hf := by cases hf

theorem notInLibrary {name : String} (h : CallsMissing tokens name) :
    Founded tokens (.notInLibrary name) where
  ordinary _ hf := by cases hf
  called _ hf := by
    cases hf
    exact h

theorem ofLibrary {fault : Fault} (h : fault.OfLibrary) : fault.Founded tokens := by
  cases h <;> exact ⟨fun _ hf => (by cases hf), fun _ hf => (by cases hf)⟩

theorem numeralValue {text : String} {fault : Fault}
    (h : Formula.numeralValue text = .error fault) : fault.Founded tokens := by
  unfold Formula.numeralValue at h
  split at h
  · cases h
  · cases h
    exact notANumeral _

theorem quarterIndex {token : Token} {fault : Fault}
    (h : Rule.quarterIndex token = .error fault) : fault.Founded tokens := by
  rcases fault_quarterIndex h with ⟨rfl, -, -⟩ | ⟨-, noValue | ⟨cause, rfl⟩⟩
  · exact malformed (by decide)
  · exact numeralValue noValue
  · exact numeric cause

theorem mapArguments {args : List Value} {fault : Fault}
    (h : Library.mapArguments args = .error fault) : fault.Founded tokens := by
  rcases Library.fault_mapArguments h with rfl | h
  · exact ⟨fun _ hf => (by cases hf), fun _ hf => (by cases hf)⟩
  · exact ofLibrary h

end Fault.Founded

/-! ### Steps without tokens -/

/-- A value is what an answer comes to; a new array may have any identity. -/
def Answer.Gives : Answer → Value → Prop
  | .value v, u => u = v
  | .newArray items, u => ∃ identity, u = .array identity items

/-- The result of a step is what its operator or library function gives for the operands in the
step. A mapping calls back into the evaluation, and look-ups are noted in their own way. -/
def Step.Computed : Step → Prop
  | .lookup _ => False
  | .arithmetic op left right result => Formula.arithmetic op left right = .ok result
  | .comparison op left right result => Formula.comparison op left right = .ok result
  | .negation operand result => result = negate operand
  | .percent operand result => ∃ n, operand = .number n ∧ Formula.percent n = .ok result
  | .call function arguments result => function ≠ mapName → ∃ builtin answer,
    Builtin.ofName? function = some builtin ∧ builtin.apply arguments = .ok answer ∧
      answer.Gives result
  | .unknownCall .. => True

/-- A step has the result that it should have, and calls nothing unknown but what the tokens
call. -/
structure Step.Founded (tokens : Array Token) (step : Step) : Prop where
  computed : step.Computed
  called : ∀ name args, step = .unknownCall name args → CallsUnknown tokens name

theorem Step.Founded.of_computed {tokens : Array Token} {step : Step} (computed : step.Computed)
    (known : ∀ name args, step ≠ .unknownCall name args) : step.Founded tokens :=
  ⟨computed, fun name args h => absurd h (known name args)⟩

theorem Step.Founded.of_unknownCall {tokens : Array Token} {function : String}
    {args : List Value} (called : CallsUnknown tokens function) :
    (Step.unknownCall function args).Founded tokens :=
  ⟨trivial, fun name _ h => by cases h; exact called⟩

/-! ### The logic -/

/-- A way to reason about readings of a row of tokens. `Holds p Q m` is about the runs of `m` that
start at the token `p`, and `Q` relates their results to the tokens where they end. -/
structure RuleLogic (tokens : Array Token) (P : Lambda → Prop) where
  /-- The modes that the logic can deal with. -/
  Admits : Mode → Prop
  Holds : {α : Type} → Nat → (α → Nat → Prop) → Eval α → Prop
  pure : ∀ {α : Type} {p Q} {a : α}, Q a p → Holds p Q (pure a)
  bind : ∀ {α β : Type} {p R Q} {m : Eval α} {f : α → Eval β}, Holds p R m →
    (∀ a q, R a q → Holds q Q (f a)) → Holds p Q (m >>= f)
  fault : ∀ {α : Type} {p Q fault}, fault.Founded tokens → Holds p Q (throw fault : Eval α)
  tooDeep : ∀ {p Q}, Holds p Q Formula.tooDeep
  tokensLeft : ∀ {p Q}, (∀ n, Q n p) → Holds p Q Eval.tokensLeft
  position : ∀ {p Q}, Q p p → Holds p Q Eval.position
  peek : ∀ {p Q}, (∀ token, tokens[p]? = some token → Q token p) → Holds p Q Eval.peek
  /-- Any token but one that starts a reference with brackets. -/
  advance : ∀ {p Q token}, tokens[p]? = some token → token.kind ≠ .endMark →
    ¬ BracketAt tokens p → Q token (p + 1) → Holds p Q Eval.advance
  /-- A reference with brackets. -/
  reference : ∀ {p Q token mode nested scope}, Admits mode → tokens[p]? = some token →
    BracketAt tokens p → (∀ v, Reads tokens .primary p (p + 4) → v.EveryLambda P → Q v (p + 4)) →
      Holds p Q (Rule.word nested mode scope token)
  /-- A name by itself that stands for a metric. -/
  lookup : ∀ {p Q mode word}, Admits mode → nameAt tokens p = some word →
    (∀ v, v.EveryLambda P → Q v (p + 1)) → Holds (p + 1) Q (Rule.lookup mode word 1 word)
  newIdentity : ∀ {p Q}, (∀ identity, Q identity p) → Holds p Q Eval.newIdentity
  noteStep : ∀ {p Q mode step}, Admits mode → step.Founded tokens → Q () p →
    Holds p Q (Eval.noteStep mode step)
  noticeUnknown : ∀ {p Q name}, Admits .live → CallsUnknown tokens name → Q () p →
    Holds p Q (Eval.notice (.unknownFunction name))
  /-- Where no binding is next, the bindings of a `LET` end. -/
  noBinding : ∀ {p Q nested mode rounds scope}, ¬ BindingAt tokens p → Q scope p →
    Holds p Q (Rule.bindings nested mode (rounds + 1) scope)
  callLambda : ∀ {p Q nested scope f argument}, Admits .live →
    (∀ {p scope}, Keeps P scope →
      Holds p (fun v q => Reads tokens .expression p q ∧ v.EveryLambda P) (nested.body scope)) →
    Keeps P scope → P f → argument.EveryLambda P → (∀ v, v.EveryLambda P → Q v p) →
      Holds p Q (Rule.callLambda nested scope f argument)
  lambdaForm : ∀ {p Q nested scope}, functionAt tokens p = some lambdaName →
    (∀ {p scope}, Admits .dry → Keeps P scope →
      Holds p (fun v q => Reads tokens .expression p q ∧ v.EveryLambda P)
        (nested.expression .dry scope)) →
    Keeps P scope → (∀ v q, Reads tokens .primary p q → v.EveryLambda P → Q v q) →
      Holds (p + 1) Q (Rule.lambdaForm nested scope)

namespace RuleLogic

variable {tokens : Array Token} {P : Lambda → Prop} (L : RuleLogic tokens P)
variable {α β : Type} {p : Nat}

/-- Weaken what is known of the result. -/
theorem mono {R Q : α → Nat → Prop} {m : Eval α} (h : L.Holds p R m)
    (imp : ∀ a q, R a q → Q a q) : L.Holds p Q m := by
  rw [← bind_pure m]
  exact L.bind h fun a q hr => L.pure (imp a q hr)

theorem ite {Q : α → Nat → Prop} {c : Prop} [Decidable c] {m n : Eval α}
    (yes : c → L.Holds p Q m) (no : ¬ c → L.Holds p Q n) :
    L.Holds p Q (if c then m else n) := by
  split
  · exact yes ‹_›
  · exact no ‹_›

/-! ### Tokens -/

theorem look : L.Holds p (fun token q => tokens[p]? = some token ∧ q = p) Eval.peek :=
  L.peek fun _ h => ⟨h, rfl⟩

/-- Move past a token that is not the name of a reference. -/
theorem pass {kind : TokenKind} (h : kindAt tokens p = some kind) (notEnd : kind ≠ .endMark)
    (noBracket : ¬ BracketAt tokens p) :
    L.Holds p (fun token q => tokens[p]? = some token ∧ q = p + 1) Eval.advance := by
  obtain ⟨token, ht, rfl⟩ := Option.map_eq_some_iff.mp h
  exact L.advance ht notEnd noBracket ⟨ht, rfl⟩

theorem not_bracketAt {kind : TokenKind} (h : kindAt tokens p = some kind)
    (noName : kind ≠ .identifier) : ¬ BracketAt tokens p := by
  rintro ⟨name, _⟩
  exact noName (Option.some.inj (h.symm.trans name))

theorem passMark {kind : TokenKind} (h : kindAt tokens p = some kind) (notEnd : kind ≠ .endMark)
    (noName : kind ≠ .identifier) :
    L.Holds p (fun token q => tokens[p]? = some token ∧ q = p + 1) Eval.advance :=
  L.pass h notEnd (not_bracketAt h noName)

theorem accept {kind : TokenKind} (notEnd : kind ≠ .endMark) (noName : kind ≠ .identifier) :
    L.Holds p (fun found q => found = true ∧ kindAt tokens p = some kind ∧ q = p + 1 ∨
      found = false ∧ kindAt tokens p ≠ some kind ∧ q = p) (Eval.accept kind) := by
  refine L.bind L.look ?_
  rintro token p ⟨ht, rfl⟩
  refine L.ite (fun hk => ?_) fun hk => L.pure (.inr ⟨rfl, ?_, rfl⟩)
  · have hp : kindAt tokens p = some kind := by simp [kindAt, ht, hk]
    refine L.bind (L.passMark hp notEnd noName) ?_
    exact fun _ _ hq => L.pure (.inl ⟨rfl, hp, hq.2⟩)
  · simp [kindAt, ht, hk]

theorem acceptOperator {symbol : String} :
    L.Holds p (fun found q => found = true ∧ operatorAt tokens p = some symbol ∧ q = p + 1 ∨
      found = false ∧ operatorAt tokens p ≠ some symbol ∧ q = p) (Eval.acceptOperator symbol) := by
  refine L.bind L.look ?_
  rintro token p ⟨ht, rfl⟩
  refine L.ite (fun hk => ?_) fun hk => L.pure (.inr ⟨rfl, ?_, rfl⟩)
  · have hp : operatorAt tokens p = some symbol := by simp [operatorAt, ht, hk]
    refine L.bind (L.passMark (kindAt_of_operatorAt hp) (by decide) (by decide)) ?_
    exact fun _ _ hq => L.pure (.inl ⟨rfl, hp, hq.2⟩)
  · simpa [operatorAt, ht] using hk

theorem expect {kind : TokenKind} {problem : SyntaxFault} (notEnd : kind ≠ .endMark)
    (noName : kind ≠ .identifier) (ordinary : problem ≠ .lambdaEndsElsewhere) :
    L.Holds p (fun _ q => kindAt tokens p = some kind ∧ q = p + 1) (Eval.expect kind problem) := by
  refine L.bind L.look ?_
  rintro token p ⟨ht, rfl⟩
  refine L.ite (fun hk => ?_) fun _ => L.fault (.malformed ordinary)
  have hp : kindAt tokens p = some kind := by simp [kindAt, ht, hk]
  exact L.mono (L.passMark hp notEnd noName) fun _ _ hq => ⟨hp, hq.2⟩

theorem operator? {γ : Type} {ofSymbol? : String → Option γ} :
    L.Holds p (fun op q => op = (operatorAt tokens p).bind ofSymbol? ∧ q = p)
      (Eval.operator? ofSymbol?) := by
  refine L.bind L.look ?_
  rintro token p ⟨ht, rfl⟩
  refine L.pure ⟨?_, rfl⟩
  by_cases hk : token.kind = .operator <;> simp [operatorAt, ht, hk]

/-! ### Faults and values -/

theorem orFault {x : Except Fault α} (founded : ∀ fault, x = .error fault → fault.Founded tokens) :
    L.Holds p (fun a q => x = .ok a ∧ q = p) (Eval.orFault x) := by
  cases x with
  | ok a => exact L.pure ⟨rfl, rfl⟩
  | error fault => exact L.fault (founded fault rfl)

theorem orNumericFault {x : Except NumericFault α} :
    L.Holds p (fun a q => x = .ok a ∧ q = p) (Eval.orNumericFault x) := by
  cases x with
  | ok a => exact L.pure ⟨rfl, rfl⟩
  | error cause => exact L.fault (.numeric cause)

theorem newArray {items : List Value} (h : ∀ v ∈ items, v.EveryLambda P) :
    L.Holds p (fun v q => (Answer.newArray items).Gives v ∧ v.EveryLambda P ∧ q = p)
      (Eval.newArray items) :=
  L.bind (L.newIdentity (Q := fun _ q => q = p) fun _ => rfl) fun identity _ hq =>
    L.pure ⟨⟨identity, rfl⟩, .array h, hq⟩

theorem ofAnswer {answer : Answer} (h : ∀ v ∈ answer.values, v.EveryLambda P) :
    L.Holds p (fun v q => answer.Gives v ∧ v.EveryLambda P ∧ q = p) (Eval.ofAnswer answer) := by
  cases answer with
  | value v => exact L.pure ⟨rfl, h v (by simp [Answer.values]), rfl⟩
  | newArray items => exact L.newArray h

/-! ### Words without parts -/

/-- A phrase and a value that keeps the invariant. -/
def Yields (_ : RuleLogic tokens P) (phrase : Phrase) (p : Nat) (v : Value)
    (q : Nat) : Prop :=
  Reads tokens phrase p q ∧ v.EveryLambda P

/-- A phrase and values that keep the invariant. -/
def YieldsAll (_ : RuleLogic tokens P) (phrase : Phrase) (p : Nat)
    (vs : List Value) (q : Nat) : Prop :=
  Reads tokens phrase p q ∧ ∀ v ∈ vs, v.EveryLambda P

theorem name {mode : Mode} {scope : Scope} {word : String} {Q : Value → Nat → Prop}
    (keeps : Keeps P scope) (bound : ∀ v, v.EveryLambda P → Q v p)
    (free : L.Holds p Q (Rule.lookup mode word 1 word)) :
    L.Holds p Q (Rule.name mode scope word) := by
  unfold Rule.name
  split
  · exact L.pure (bound _ (keeps.lookup ‹_›))
  · exact free

theorem number {token : Token} (kind : kindAt tokens p = some .number) :
    L.Holds p (L.Yields .primary p) (Rule.number token) := by
  refine L.bind (L.passMark kind (by decide) (by decide)) ?_
  rintro _ _ ⟨_, rfl⟩
  refine L.bind (L.orFault fun _ => .numeralValue) ?_
  rintro x _ ⟨_, rfl⟩
  exact L.pure ⟨.number kind, .scalar (Value.isScalar_ofFinite _)⟩

/-! ### Lists of expressions -/

section

variable {item : Eval Value}
  (holds : ∀ {p}, L.Holds p (L.Yields .expression p) item)

include holds

theorem moreItems (rounds : Nat) {items : Array Value} (h : ∀ v ∈ items, v.EveryLambda P) :
    L.Holds p (fun vs q => Reads tokens .others p q ∧ ∀ v ∈ vs, v.EveryLambda P)
      (Rule.moreItems item rounds items) := by
  induction rounds generalizing p items with
  | zero => exact L.fault .pastLastToken
  | succ rounds ih =>
    refine L.bind (L.accept (by decide) (by decide)) ?_
    rintro _ _ (⟨rfl, hc, rfl⟩ | ⟨rfl, hc, rfl⟩)
    · refine L.bind holds ?_
      rintro v q ⟨hr, hv⟩
      have hpush : ∀ u ∈ items.push v, u.EveryLambda P := by
        intro u hu
        rcases Array.mem_push.mp hu with hu | rfl
        · exact h u hu
        · exact hv
      exact L.mono (ih hpush) fun vs r ho => ⟨.others hc hr ho.1, ho.2⟩
    · exact L.pure ⟨.noOthers hc, h⟩

theorem items {closing : TokenKind} {problem : SyntaxFault} (notEnd : closing ≠ .endMark)
    (noName : closing ≠ .identifier) (ordinary : problem ≠ .lambdaEndsElsewhere) :
    L.Holds p (L.YieldsAll (.list closing) p) (Rule.items item closing problem) := by
  refine L.bind L.look ?_
  rintro token p ⟨ht, rfl⟩
  refine L.ite (fun hk => ?_) fun hk => ?_
  · have hp : kindAt tokens p = some closing := by simp [kindAt, ht, hk]
    refine L.bind (L.pure (Q := fun vs q => vs = #[] ∧ q = p) ⟨rfl, rfl⟩) ?_
    rintro _ _ ⟨rfl, rfl⟩
    refine L.bind (L.expect notEnd noName ordinary) ?_
    rintro _ _ ⟨_, rfl⟩
    exact L.pure ⟨.emptyList hp, by simp⟩
  · have hp : kindAt tokens p ≠ some closing := by simpa [kindAt, ht] using hk
    refine L.bind holds ?_
    rintro first q ⟨hf, hv⟩
    refine L.bind (L.tokensLeft (Q := fun _ r => r = q) fun _ => rfl) ?_
    rintro rounds _ rfl
    have single : ∀ v ∈ #[first], v.EveryLambda P := by simpa using hv
    refine L.bind (L.moreItems holds rounds single) ?_
    rintro vs r ⟨ho, hvs⟩
    refine L.bind (L.expect notEnd noName ordinary) ?_
    rintro _ _ ⟨hc, rfl⟩
    exact L.pure ⟨.list hp hf ho hc, by simpa using hvs⟩

theorem array (kind : kindAt tokens p = some .leftBrace) :
    L.Holds p (L.Yields .primary p) (Rule.array item) := by
  refine L.bind (L.passMark kind (by decide) (by decide)) ?_
  rintro _ _ ⟨_, rfl⟩
  refine L.bind (L.items holds (by decide) (by decide) (by decide)) ?_
  rintro vs q ⟨hr, hvs⟩
  exact L.mono (L.newArray hvs) fun v r hv => ⟨hv.2.2 ▸ .array kind hr, hv.2.1⟩

theorem arguments {function : String} :
    L.Holds p (fun vs q => kindAt tokens p = some .leftParen ∧
      L.YieldsAll (.list .rightParen) (p + 1) vs q) (Rule.arguments item function) := by
  refine L.bind (L.expect (by decide) (by decide) (by simp)) ?_
  rintro _ _ ⟨hp, rfl⟩
  exact L.mono (L.items holds (by decide) (by decide) (by decide)) fun vs q hvs => ⟨hp, hvs⟩

theorem parenthesized (kind : kindAt tokens p = some .leftParen) :
    L.Holds p (L.Yields .primary p) (Rule.parenthesized item) := by
  refine L.bind (L.passMark kind (by decide) (by decide)) ?_
  rintro _ _ ⟨_, rfl⟩
  refine L.bind holds ?_
  rintro v q ⟨hr, hv⟩
  refine L.bind (L.expect (by decide) (by decide) (by decide)) ?_
  rintro _ _ ⟨hc, rfl⟩
  exact L.pure ⟨.parenthesized kind hr hc, hv⟩

end

/-! ### Operators -/

theorem combine {mode : Mode} (admits : L.Admits mode) {op : ArithmeticOp} {left right : Value} :
    L.Holds p (fun v q => v.EveryLambda P ∧ q = p) (Rule.combine mode op left right) := by
  refine L.bind L.orNumericFault ?_
  rintro result p ⟨hn, rfl⟩
  refine L.bind (L.noteStep admits (.of_computed hn (by simp)) (Q := fun _ q => q = p) rfl) ?_
  rintro _ p rfl
  exact L.pure ⟨.scalar (isScalar_arithmetic hn), rfl⟩

section

variable {operand : Eval Value} {rank : Rank} {mode : Mode} (admits : L.Admits mode)
  (holds : ∀ {p}, L.Holds p (L.Yields rank.operand p) operand)

include admits holds

theorem chain (rounds : Nat) {left : Value} (hl : left.EveryLambda P) :
    L.Holds p (L.Yields (.rest rank) p) (Rule.chain operand rank.op? mode rounds left) := by
  induction rounds generalizing p left with
  | zero => exact L.fault .pastLastToken
  | succ rounds ih =>
    refine L.bind L.operator? ?_
    rintro op p ⟨ho, rfl⟩
    cases op with
    | none => exact L.pure ⟨.restEnd ho.symm, hl⟩
    | some op =>
      refine L.bind (L.passMark (kindAt_of_bind_operatorAt ho.symm) (by decide) (by decide)) ?_
      rintro _ _ ⟨_, rfl⟩
      refine L.bind holds ?_
      rintro right q ⟨hr, _⟩
      refine L.bind (L.combine admits) ?_
      rintro result q ⟨hresult, rfl⟩
      exact L.mono (ih hresult) fun v r h => ⟨.restMore ho.symm hr h.1, h.2⟩

theorem level :
    L.Holds p (L.Yields (.level rank) p) (Rule.level operand rank.op? mode) := by
  refine L.bind holds ?_
  rintro left q ⟨hr, hv⟩
  refine L.bind (L.tokensLeft (Q := fun _ r => r = q) fun _ => rfl) ?_
  rintro rounds q rfl
  exact L.mono (L.chain admits holds rounds hv) fun v r h => ⟨.level hr h.1, h.2⟩

end

/-! ### Calls -/

/-- What the rules of an expression may rely on: what is nested in it are expressions, and so are
the bodies of lambdas. -/
structure Nests (L : RuleLogic tokens P) (nested : Nested) : Prop where
  expression : ∀ {p mode scope}, L.Admits mode → Keeps P scope →
    L.Holds p (L.Yields .expression p) (nested.expression mode scope)
  body : ∀ {p scope}, L.Admits .live → Keeps P scope →
    L.Holds p (L.Yields .expression p) (nested.body scope)

section

variable {nested : Nested} {scope : Scope} (nests : Nests L nested) (admits : L.Admits .live)
  (keeps : Keeps P scope)

include nests admits keeps

theorem mappedItem {f : Lambda} {argument : Value} (hf : P f) (ha : argument.EveryLambda P) :
    L.Holds p (fun v q => v.EveryLambda P ∧ q = p) (Rule.callLambda nested scope f argument) :=
  L.callLambda admits (nests.body admits) keeps hf ha fun _ hv => ⟨hv, rfl⟩

theorem mapLambda {f : Lambda} {items : List Value} (hf : P f) (h : ∀ v ∈ items, v.EveryLambda P) :
    L.Holds p (fun vs q => (∀ v ∈ vs, v.EveryLambda P) ∧ q = p)
      (items.mapM (Rule.callLambda nested scope f)) := by
  induction items with
  | nil => exact L.pure ⟨by simp, rfl⟩
  | cons v rest ih =>
    rw [List.mapM_cons]
    refine L.bind (L.mappedItem nests admits keeps hf (h v (by simp))) ?_
    rintro u p ⟨hu, rfl⟩
    refine L.bind (ih fun w hw => h w (by simp [hw])) ?_
    rintro us _ ⟨hus, rfl⟩
    exact L.pure ⟨by simpa using ⟨hu, hus⟩, rfl⟩

theorem applyFunction {function : String} {args : List Value}
    (missing : function ≠ mapName → Builtin.ofName? function = none →
      CallsMissing tokens function) (hargs : ∀ v ∈ args, v.EveryLambda P) :
    L.Holds p (fun v q => (Step.call function args v).Computed ∧ v.EveryLambda P ∧ q = p)
      (Rule.applyFunction nested scope function args) := by
  refine L.ite (fun map => ?_) fun noMap => ?_
  · refine L.bind (L.orFault fun _ => .mapArguments) ?_
    rintro ⟨items, f⟩ p ⟨hm, rfl⟩
    obtain ⟨identity, hlambda, rfl⟩ := Library.mapArguments_eq_ok hm
    have hf : P f := (hlambda ▸ Value.EveryLambda.getD hargs 1).of_lambda
    have hitems : ∀ v ∈ (args.getD 0 .null).toItems, v.EveryLambda P :=
      (Value.EveryLambda.getD hargs 0).toItems
    refine L.bind (L.mapLambda nests admits keeps hf hitems) ?_
    rintro vs p ⟨hvs, rfl⟩
    exact L.mono (L.newArray hvs) fun v q hv => ⟨fun noMap => absurd map noMap, hv.2⟩
  · split
    · rename_i builtin named
      refine L.bind (L.orFault fun _ h => .ofLibrary (Builtin.fault_apply h)) ?_
      rintro answer p ⟨ha, rfl⟩
      exact L.mono (L.ofAnswer (Value.EveryLambda.answer hargs ha)) fun v q hv =>
        ⟨fun _ => ⟨builtin, answer, named, ha, hv.1⟩, hv.2⟩
    · exact L.fault (.notInLibrary (missing noMap ‹_›))

end

section

variable {nested : Nested} {mode : Mode} {scope : Scope} (nests : Nests L nested)
  (admits : L.Admits mode) (keeps : Keeps P scope)

include nests admits keeps

/-- The name of a function was read, and its arguments are next. -/
theorem call {function : String}
    (name : functionAt tokens p = some function) (noLet : function ≠ letName)
    (noLambda : function ≠ lambdaName) :
    L.Holds (p + 1) (L.Yields .primary p) (Rule.call nested mode scope function) := by
  refine L.bind (L.arguments (nests.expression admits keeps)) ?_
  rintro args q ⟨hp, hr, hargs⟩
  have reads : Reads tokens .primary p q := .call name noLet noLambda hp hr
  have missing (noMap : function ≠ mapName) (none : Builtin.ofName? function = none) :
      CallsMissing tokens function := ⟨p, name, noLet, noLambda, noMap, none⟩
  refine L.ite (fun _ => L.pure ⟨reads, .scalar trivial⟩) fun notDry => ?_
  have live : mode = .live := by
    cases mode with
    | live => rfl
    | dry => exact absurd rfl notDry
  refine L.bind (L.applyFunction nests (live ▸ admits) keeps missing hargs) ?_
  rintro v q ⟨computed, hv, rfl⟩
  refine L.bind (L.noteStep admits (.of_computed computed (by simp)) (Q := fun _ r => r = q) rfl) ?_
  rintro _ _ rfl
  exact L.pure ⟨reads, hv⟩

theorem unknownCall {function : String} (name : nameAt tokens p = some function) :
    L.Holds (p + 1) (L.Yields .primary p) (Rule.unknownCall nested mode scope function) := by
  refine L.bind (L.arguments (nests.expression admits keeps)) ?_
  rintro args q ⟨hp, hr, hargs⟩
  have reads : Reads tokens .primary p q := .unknownCall (kindAt_of_nameAt name) hp hr
  have called : CallsUnknown tokens function := ⟨p, name, hp⟩
  refine L.ite (fun live => ?_) fun _ => L.pure ⟨reads, .scalar trivial⟩
  refine L.bind (L.noticeUnknown (live ▸ admits) called (Q := fun _ r => r = q) rfl) ?_
  rintro _ q rfl
  refine L.bind (L.noteStep admits (.of_unknownCall called) (Q := fun _ r => r = q) rfl) ?_
  rintro _ _ rfl
  exact L.pure ⟨reads, .scalar trivial⟩

/-! ### Forms that bind names -/

/-- The bindings of a `LET` were read: whatever expression follows is its body. -/
def Binds (_ : RuleLogic tokens P) (p : Nat) (scope : Scope) (q : Nat) : Prop :=
  Keeps P scope ∧
    ∀ r, Reads tokens .expression q r → Reads tokens .bindings p r

theorem bindings (rounds : Nat) :
    L.Holds p (L.Binds p) (Rule.bindings nested mode rounds scope) := by
  induction rounds generalizing p scope with
  | zero => exact L.fault .pastLastToken
  | succ rounds ih =>
    by_cases hb : BindingAt tokens p
    · obtain ⟨hp, hc⟩ := id hb
      have noBracket : ¬ BracketAt tokens p := fun bracket => by
        simpa using hc.symm.trans bracket.2
      refine L.bind L.look ?_
      rintro token p ⟨ht, rfl⟩
      have kind : token.kind = .identifier := by simpa [kindAt, ht] using hp
      rw [if_neg (by simp [kind])]
      refine L.bind (L.position (Q := fun _ q => q = p) rfl) ?_
      rintro _ p rfl
      refine L.bind (L.pass hp (by decide) noBracket) ?_
      rintro name _ ⟨_, rfl⟩
      refine L.bind (L.accept (by decide) (by decide)) ?_
      rintro _ _ (⟨rfl, _, rfl⟩ | ⟨rfl, noComma, rfl⟩)
      · refine L.bind (nests.expression admits keeps) ?_
        rintro v q ⟨hr, hv⟩
        refine L.bind L.look ?_
        rintro next q ⟨hn, rfl⟩
        refine L.ite (fun hparen => ?_) fun _ => ?_
        · have noComma : kindAt tokens q ≠ some .comma := by simp [kindAt, hn, hparen]
          exact L.pure ⟨keeps.cons hv, fun r hr' => .lastBinding ⟨hp, hc⟩ hr noComma hr'⟩
        · refine L.bind (L.accept (by decide) (by decide)) ?_
          rintro _ _ (⟨rfl, hcomma, rfl⟩ | ⟨rfl, noComma, rfl⟩)
          · refine L.mono (ih (keeps.cons hv)) ?_
            rintro scope r ⟨hkeeps, hrest⟩
            exact ⟨hkeeps, fun _ hr' => .binding ⟨hp, hc⟩ hr hcomma (hrest _ hr')⟩
          · exact L.pure ⟨keeps.cons hv, fun r hr' => .lastBinding ⟨hp, hc⟩ hr noComma hr'⟩
      · exact absurd hc noComma
    · exact L.noBinding hb ⟨keeps, fun _ hr => .body hb hr⟩

theorem letForm (name : functionAt tokens p = some letName) :
    L.Holds (p + 1) (L.Yields .primary p) (Rule.letForm nested mode scope) := by
  refine L.bind (L.expect (by decide) (by decide) (by decide)) ?_
  rintro _ _ ⟨hp, rfl⟩
  refine L.bind (L.tokensLeft (Q := fun _ q => q = p + 1 + 1) fun _ => rfl) ?_
  rintro rounds _ rfl
  refine L.bind (L.bindings nests admits keeps rounds) ?_
  rintro scope q ⟨hkeeps, hb⟩
  refine L.bind (nests.expression admits hkeeps) ?_
  rintro v r ⟨hr, hv⟩
  refine L.bind (L.expect (by decide) (by decide) (by decide)) ?_
  rintro _ _ ⟨hc, rfl⟩
  exact L.pure ⟨.letForm name hp (hb r hr) hc, hv⟩

/-! ### Operands -/

theorem word {token : Token} (ht : tokens[p]? = some token) (kind : token.kind = .identifier) :
    L.Holds p (L.Yields .primary p) (Rule.word nested mode scope token) := by
  have hp : kindAt tokens p = some .identifier := by simp [kindAt, ht, kind]
  have named : nameAt tokens p = some token.text := nameAt_of_token ht kind
  by_cases bracket : BracketAt tokens p
  · exact L.reference admits ht bracket fun v hr hv => ⟨hr, hv⟩
  refine L.bind (L.pass hp (by decide) bracket) ?_
  rintro _ _ ⟨_, rfl⟩
  refine L.bind L.look ?_
  rintro next _ ⟨hn, rfl⟩
  have hnext : kindAt tokens (p + 1) = some next.kind := by simp [kindAt, hn]
  split
  · exact absurd ⟨hp, by simp [*]⟩ bracket
  · exact L.unknownCall nests admits keeps named
  · have reads : Reads tokens .primary p (p + 1) := by
      refine .name hp ?_ ?_
      · simpa [hnext] using ‹next.kind = .leftBracket → False›
      · simpa [hnext] using ‹next.kind = .leftParen → False›
    have yields (v : Value) (hv : v.EveryLambda P) : L.Yields .primary p v (p + 1) := ⟨reads, hv⟩
    exact L.name keeps yields (L.lookup admits named yields)

theorem function {token : Token} (ht : tokens[p]? = some token) (kind : token.kind = .function) :
    L.Holds p (L.Yields .primary p) (Rule.function nested mode scope token) := by
  have hp : kindAt tokens p = some .function := by simp [kindAt, ht, kind]
  have hname : functionAt tokens p = some token.text := by simp [functionAt, ht, kind]
  refine L.bind (L.passMark hp (by decide) (by decide)) ?_
  rintro _ _ ⟨_, rfl⟩
  refine L.ite (fun hl => ?_) fun noLet => L.ite (fun hl => ?_) fun noLambda => ?_
  · exact L.letForm nests admits keeps (hl ▸ hname)
  · exact L.lambdaForm (hl ▸ hname) nests.expression keeps fun v q hr hv => ⟨hr, hv⟩
  · exact L.call nests admits keeps hname noLet noLambda

theorem primary : L.Holds p (L.Yields .primary p) (Rule.primary nested mode scope) := by
  refine L.bind L.look ?_
  rintro token p ⟨ht, rfl⟩
  have hp : kindAt tokens p = some token.kind := by simp [kindAt, ht]
  split
  case h_1 kind => exact L.number (kind ▸ hp)
  case h_2 kind =>
    refine L.bind (L.passMark (kind ▸ hp) (by decide) (by decide)) ?_
    rintro _ _ ⟨_, rfl⟩
    exact L.pure ⟨.string (kind ▸ hp), .scalar trivial⟩
  case h_3 kind => exact L.array (nests.expression admits keeps) (kind ▸ hp)
  case h_4 kind => exact L.word nests admits keeps ht kind
  case h_5 kind => exact L.function nests admits keeps ht kind
  case h_6 kind => exact L.parenthesized (nests.expression admits keeps) (kind ▸ hp)
  · exact L.fault (.malformed (by decide))
  · exact L.fault (.malformed (by simp))

theorem postfixed (sign : operatorAt tokens p ≠ some "-") :
    L.Holds p (L.Yields .unary p) (Rule.postfixed (Rule.primary nested mode scope) mode) := by
  refine L.bind (L.primary nests admits keeps) ?_
  rintro v q ⟨hr, hv⟩
  refine L.bind L.acceptOperator ?_
  rintro _ _ (⟨rfl, hs, rfl⟩ | ⟨rfl, hs, rfl⟩)
  · have reads : Reads tokens .unary p (q + 1) := .percent sign hr hs
    rw [if_pos rfl]
    split
    · rename_i n
      refine L.bind L.orNumericFault ?_
      rintro result _ ⟨hn, rfl⟩
      have founded : (Step.percent (.number n) result).Founded tokens :=
        .of_computed ⟨n, rfl, hn⟩ (by simp)
      refine L.bind (L.noteStep admits founded (Q := fun _ r => r = q + 1) rfl) ?_
      rintro _ _ rfl
      exact L.pure ⟨reads, .scalar (isScalar_percent hn)⟩
    · exact L.pure ⟨reads, hv⟩
  · exact L.pure ⟨.unsigned sign hr hs, hv⟩

theorem signed (rounds : Nat) :
    L.Holds p (L.Yields .unary p) (Rule.signed (Rule.primary nested mode scope) mode rounds) := by
  induction rounds generalizing p with
  | zero => exact L.fault .pastLastToken
  | succ rounds ih =>
    refine L.bind L.acceptOperator ?_
    rintro _ _ (⟨rfl, hs, rfl⟩ | ⟨rfl, hs, rfl⟩)
    · refine L.bind ih ?_
      rintro v q ⟨hr, hv⟩
      refine L.bind (L.noteStep admits (.of_computed rfl (by simp)) (Q := fun _ r => r = q) rfl) ?_
      rintro _ q rfl
      exact L.pure ⟨.negation hs hr, .scalar (isScalar_negate v)⟩
    · exact L.postfixed nests admits keeps hs

theorem unary : L.Holds p (L.Yields .unary p) (Rule.unary nested mode scope) := by
  refine L.bind (L.tokensLeft (Q := fun _ q => q = p) fun _ => rfl) ?_
  rintro rounds p rfl
  exact L.signed nests admits keeps rounds

theorem multiplicative :
    L.Holds p (L.Yields (.level .product) p) (Rule.multiplicative nested mode scope) :=
  L.level admits (L.unary nests admits keeps)

theorem additive : L.Holds p (L.Yields (.level .sum) p) (Rule.additive nested mode scope) :=
  L.level admits (L.multiplicative nests admits keeps)

theorem compared : L.Holds p (L.Yields .expression p) (Rule.compared nested mode scope) := by
  refine L.bind (L.additive nests admits keeps) ?_
  rintro left q ⟨hr, hv⟩
  refine L.bind L.operator? ?_
  rintro op q ⟨ho, rfl⟩
  cases op with
  | none => exact L.pure ⟨.plain hr ho.symm, hv⟩
  | some op =>
    refine L.bind (L.passMark (kindAt_of_bind_operatorAt ho.symm) (by decide) (by decide)) ?_
    rintro _ _ ⟨_, rfl⟩
    refine L.bind (L.additive nests admits keeps) ?_
    rintro right r ⟨hright, _⟩
    refine L.bind L.orNumericFault ?_
    rintro result r ⟨hn, rfl⟩
    refine L.bind (L.noteStep admits (.of_computed hn (by simp)) (Q := fun _ s => s = r) rfl) ?_
    rintro _ r rfl
    exact L.pure ⟨.comparison hr ho.symm hright, .scalar trivial⟩

end

/-! ### Expressions -/

/-- Whatever is read as an expression is one, and its value keeps the invariant. -/
theorem expression (depth : Nat) {p : Nat} {mode : Mode} {scope : Scope}
    (admits : L.Admits mode) (keeps : Keeps P scope) :
    L.Holds p (L.Yields .expression p) (Formula.expression depth mode scope) := by
  match depth with
  | 0 => exact L.tooDeep
  | 1 =>
    have nests : Nests L
        { expression := Formula.expression 0, body := Formula.expression 0 .live } :=
      ⟨fun _ _ => L.tooDeep, fun _ _ => L.tooDeep⟩
    exact L.compared nests admits keeps
  | depth + 2 =>
    have nests : Nests L
        { expression := Formula.expression (depth + 1), body := Formula.expression depth .live } :=
      ⟨fun admits keeps => expression (depth + 1) admits keeps,
        fun admits keeps => expression depth admits keeps⟩
    exact L.compared nests admits keeps

theorem readAll (depth : Nat) {mode : Mode} {scope : Scope} (admits : L.Admits mode)
    (keeps : Keeps P scope) :
    L.Holds p (fun v q => L.Yields .expression p v q ∧ kindAt tokens q = some .endMark)
      (readAll depth mode scope) := by
  refine L.bind (L.expression depth admits keeps) ?_
  rintro v q hv
  refine L.bind L.look ?_
  rintro token q ⟨ht, rfl⟩
  refine L.ite (fun _ => L.fault (.malformed (by simp))) fun hk => L.pure ⟨hv, ?_⟩
  simpa [kindAt, ht] using hk

end RuleLogic

end Quarterly.Formula
