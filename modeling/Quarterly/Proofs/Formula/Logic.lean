import Quarterly.Proofs.Formula.Rules

/-!
# A program logic for readings

Readings are programs over a few primitive computations: they look at tokens, move on, write the
journal and make identities. A `ReadingLogic` is a way to reason about such programs that knows how
to deal with the primitives and with sequencing, and with no more than that it can deal with the
rules of the grammar (`ReadingLogic.rules`). `ReadingLogic.expression` then holds in it: what is
read is a phrase of the grammar, and its value keeps the invariant of the logic. Everything that is
true of all readings because it is true of every primitive, such as where a reading ends or what
two readings have in common, is an instance.
-/

namespace Quarterly.Formula

/-- A way to reason about readings of a row of tokens. `Holds p Q m` is about the runs of `m` that
start at the token `p`, and `Q` relates their results to the tokens where they end. -/
structure ReadingLogic (tokens : Array Token) (P : Lambda → Prop) where
  /-- The modes that the logic can deal with; dry readings are among them. -/
  Admits : Mode → Prop
  Holds : {α : Type} → Nat → (α → Nat → Prop) → Eval α → Prop
  dry : Admits .dry
  pure : ∀ {α : Type} {p Q} {a : α}, Q a p → Holds p Q (pure a)
  bind : ∀ {α β : Type} {p R Q} {m : Eval α} {f : α → Eval β}, Holds p R m →
    (∀ a q, R a q → Holds q Q (f a)) → Holds p Q (m >>= f)
  fault : ∀ {α : Type} {p Q fault}, fault.Ordinary → Holds p Q (throw fault : Eval α)
  tooDeep : ∀ {p Q}, Holds p Q Formula.tooDeep
  tokenAt : ∀ {p i Q}, (∀ token, tokens[i]? = some token → Q token p) → Holds p Q (Eval.tokenAt i)
  tokensLeft : ∀ {p Q}, (∀ n, Q n p) → Holds p Q Eval.tokensLeft
  position : ∀ {p Q}, Q p p → Holds p Q Eval.position
  formula : ∀ {α : Type} {p Q} {f : List Char → Eval α}, (∀ formula, Holds p Q (f formula)) →
    Holds p Q (do f (← read).formula)
  setPosition : ∀ {p q Q}, Q () q → Holds p Q (Eval.setPosition q)
  newIdentity : ∀ {p Q}, (∀ identity, Q identity p) → Holds p Q Eval.newIdentity
  noteStep : ∀ {p Q mode step}, Admits mode → step.Computed → Q () p →
    Holds p Q (Eval.noteStep mode step)
  noticeUnknown : ∀ {p Q name}, Admits .live → Q () p →
    Holds p Q (Eval.notice (.unknownFunction name))
  lookup : ∀ {p Q mode metric index reference}, Admits mode → (∀ v, v.EveryLambda P → Q v p) →
    Holds p Q (Rule.lookup mode metric index reference)
  elsewhere : ∀ {α : Type} {p start R Q} {inner : Eval α}, Holds start R inner →
    (∀ a stop, R a stop → Q (a, stop) p) → Holds p Q (Eval.elsewhere start inner)
  skip : ∀ {p R Q nested scope}, Holds p R (nested.expression .dry scope) →
    (∀ v stop, R v stop → Q stop p) → Holds p Q (Rule.skip nested scope)
  /-- A lambda that was read keeps the invariant. -/
  made : ∀ {p q parameter}, Reads tokens .expression p q → P ⟨parameter, p, q⟩
  /-- The body of a lambda may end elsewhere only as far as the logic allows for it. -/
  mismatch : ∀ {α : Type} {p stop f position Q}, P f →
    Reads tokens .expression f.start stop → stop ≠ f.stop →
      Holds p Q (throw (.malformed .lambdaEndsElsewhere position) : Eval α)

namespace ReadingLogic

variable {tokens : Array Token} {P : Lambda → Prop} (L : ReadingLogic tokens P)
variable {α β : Type} {p : Nat}

/-- Weaken what is known of the result. -/
theorem mono {R Q : α → Nat → Prop} {m : Eval α} (h : L.Holds p R m)
    (imp : ∀ a q, R a q → Q a q) : L.Holds p Q m := by
  rw [← bind_pure m]
  exact L.bind h fun a q hr => L.pure (imp a q hr)

theorem ite {Q : α → Nat → Prop} {c : Prop} [Decidable c] {m n : Eval α}
    (yes : c → L.Holds p Q m) (no : ¬ c → L.Holds p Q n) :
    L.Holds p Q (if c then m else n) := by
  split
  · exact yes ‹_›
  · exact no ‹_›

/-! ### Tokens -/

theorem peek : L.Holds p (fun token q => tokens[p]? = some token ∧ q = p) Eval.peek :=
  L.bind (L.position (Q := fun i q => i = p ∧ q = p) ⟨rfl, rfl⟩) fun
    | _, _, ⟨rfl, rfl⟩ => L.tokenAt fun _ h => ⟨h, rfl⟩

theorem advance {kind : TokenKind} (h : kindAt tokens p = some kind) (notEnd : kind ≠ .endMark) :
    L.Holds p (fun token q => tokens[p]? = some token ∧ q = p + 1) Eval.advance := by
  refine L.bind L.peek ?_
  rintro token p ⟨ht, rfl⟩
  have hk : token.kind ≠ .endMark := by
    rw [kindAt, ht] at h
    grind
  simp only [if_pos hk]
  refine L.bind (L.position (Q := fun i q => i = p ∧ q = p) ⟨rfl, rfl⟩) ?_
  rintro _ p ⟨rfl, rfl⟩
  refine L.bind (L.setPosition (Q := fun _ q => q = p + 1) rfl) ?_
  exact fun _ _ hq => L.pure ⟨ht, hq⟩

theorem accept {kind : TokenKind} (notEnd : kind ≠ .endMark) :
    L.Holds p (fun found q => found = true ∧ kindAt tokens p = some kind ∧ q = p + 1 ∨
      found = false ∧ kindAt tokens p ≠ some kind ∧ q = p) (Eval.accept kind) := by
  refine L.bind L.peek ?_
  rintro token p ⟨ht, rfl⟩
  refine L.ite (fun hk => ?_) fun hk => L.pure (.inr ⟨rfl, ?_, rfl⟩)
  · have hp : kindAt tokens p = some kind := by simp [kindAt, ht, hk]
    refine L.bind (L.advance hp notEnd) ?_
    exact fun _ _ hq => L.pure (.inl ⟨rfl, hp, hq.2⟩)
  · simp [kindAt, ht, hk]

theorem expect {kind : TokenKind} {problem : SyntaxFault} (notEnd : kind ≠ .endMark)
    (ordinary : problem ≠ .lambdaEndsElsewhere) :
    L.Holds p (fun _ q => kindAt tokens p = some kind ∧ q = p + 1) (Eval.expect kind problem) := by
  refine L.bind L.peek ?_
  rintro token p ⟨ht, rfl⟩
  refine L.ite (fun hk => ?_) fun _ => L.fault ?_
  · have hp : kindAt tokens p = some kind := by simp [kindAt, ht, hk]
    exact L.mono (L.advance hp notEnd) fun _ _ hq => ⟨hp, hq.2⟩
  · intro position h
    exact ordinary (by injection h)

theorem orFault {x : Except Fault α} (founded : ∀ fault, x = .error fault → fault.Founded tokens) :
    L.Holds p (fun a q => x = .ok a ∧ q = p) (Eval.orFault x) := by
  cases x with
  | ok a => exact L.pure ⟨rfl, rfl⟩
  | error fault => exact L.fault (founded fault rfl).ordinary

/-- A phrase and a value that keeps the invariant. -/
def Yields (_ : ReadingLogic tokens P) (phrase : Phrase) (p : Nat) (v : Value)
    (q : Nat) : Prop :=
  Reads tokens phrase p q ∧ v.EveryLambda P

theorem reference {mode : Mode} {token : Token} {Q : Value → Nat → Prop} (admits : L.Admits mode)
    (kind : kindAt tokens p = some .identifier)
    (opening : kindAt tokens (p + 1) = some .leftBracket)
    (h : ∀ v, Reads tokens .primary p (p + 4) → v.EveryLambda P → Q v (p + 4)) :
    L.Holds (p + 1) Q (Rule.reference mode token) := by
  refine L.bind (L.advance opening (by decide)) ?_
  rintro _ _ ⟨_, rfl⟩
  refine L.bind L.peek ?_
  rintro index _ ⟨hi, rfl⟩
  refine L.bind (L.orFault fun _ => .quarterIndex) ?_
  rintro k _ ⟨hk, rfl⟩
  have indexKind : kindAt tokens (p + 2) = some .identifier ∨
      kindAt tokens (p + 2) = some .number := by
    simpa [kindAt, hi] using kind_of_quarterIndex hk
  have advanced : L.Holds (p + 2) (fun _ q => q = p + 3) Eval.advance := by
    rcases indexKind with h | h
    · exact L.mono (L.advance h (by decide)) fun _ _ hq => hq.2
    · exact L.mono (L.advance h (by decide)) fun _ _ hq => hq.2
  refine L.bind advanced ?_
  rintro _ _ rfl
  refine L.bind (L.expect (by decide) (by decide)) ?_
  rintro closing _ ⟨hc, rfl⟩
  refine L.formula (f := fun formula =>
    Rule.lookup mode token.text k (sliceText formula token.position (closing.position + 1))) ?_
  exact fun _ => L.lookup admits fun v hv => h v (.reference kind opening indexKind hc) hv

/-! ### The rules of the grammar -/

theorem word_of_bracketAt {mode : Mode} {nested : Nested} {scope : Scope} {token : Token}
    {Q : Value → Nat → Prop} (admits : L.Admits mode) (bracket : BracketAt tokens p)
    (h : ∀ v, Reads tokens .primary p (p + 4) → v.EveryLambda P → Q v (p + 4)) :
    L.Holds p Q (Rule.word nested mode scope token) := by
  obtain ⟨kind, opening⟩ := bracket
  refine L.bind (L.advance kind (by decide)) ?_
  rintro _ _ ⟨_, rfl⟩
  refine L.bind L.peek ?_
  rintro next _ ⟨hn, rfl⟩
  have bracketNext : next.kind = .leftBracket := by simpa [kindAt, hn] using opening
  simp only [bracketNext]
  exact L.reference admits kind opening h

theorem noBinding {nested : Nested} {mode : Mode} {rounds : Nat} {scope : Scope}
    {Q : Scope → Nat → Prop} (noBinding : ¬ BindingAt tokens p) (h : Q scope p) :
    L.Holds p Q (Rule.bindings nested mode (rounds + 1) scope) := by
  refine L.bind L.peek ?_
  rintro token p ⟨ht, rfl⟩
  refine L.ite (fun _ => L.pure h) fun hk => ?_
  have hp : kindAt tokens p = some .identifier := by simpa [kindAt, ht] using hk
  refine L.bind (L.position (Q := fun i q => i = p ∧ q = p) ⟨rfl, rfl⟩) ?_
  rintro _ p ⟨rfl, rfl⟩
  refine L.bind (L.advance hp (by decide)) ?_
  rintro name _ ⟨_, rfl⟩
  refine L.bind (L.accept (by decide)) ?_
  rintro _ _ (⟨rfl, hc, rfl⟩ | ⟨rfl, _, rfl⟩)
  · exact absurd ⟨hp, hc⟩ noBinding
  · refine L.bind (L.setPosition (Q := fun _ q => q = p) rfl) ?_
    rintro _ _ rfl
    exact L.pure h

/-- An expression that stands where it is read, with a value that keeps the invariant. -/
def Expression (p : Nat) (m : Eval Value) : Prop :=
  L.Holds p (fun v q => Reads tokens .expression p q ∧ v.EveryLambda P) m

theorem callLambda {nested : Nested} {scope : Scope} {f : Lambda} {argument : Value}
    {Q : Value → Nat → Prop}
    (body : ∀ {p scope}, Keeps P scope → L.Expression p (nested.body scope))
    (keeps : Keeps P scope) (hf : P f) (ha : argument.EveryLambda P)
    (h : ∀ v, v.EveryLambda P → Q v p) :
    L.Holds p Q (Rule.callLambda nested scope f argument) := by
  refine L.bind (L.elsewhere (body (keeps.cons ha)) (Q := fun r q =>
    (Reads tokens .expression f.start r.2 ∧ r.1.EveryLambda P) ∧ q = p) fun v stop h => ⟨h, rfl⟩) ?_
  rintro ⟨v, stop⟩ p ⟨⟨hr, hv⟩, rfl⟩
  refine L.ite (fun hne => ?_) fun _ => L.pure (h v hv)
  refine L.bind (L.tokenAt (Q := fun _ q => q = p) fun _ _ => rfl) ?_
  rintro token _ rfl
  exact L.bind (L.mismatch hf hr hne (Q := fun _ _ => False)) fun _ _ h => h.elim

theorem lambdaForm {nested : Nested} {scope : Scope} {Q : Value → Nat → Prop}
    (name : functionAt tokens p = some lambdaName)
    (inner : ∀ {p scope}, Keeps P scope → L.Expression p (nested.expression .dry scope))
    (keeps : Keeps P scope) (h : ∀ v q, Reads tokens .primary p q → v.EveryLambda P → Q v q) :
    L.Holds (p + 1) Q (Rule.lambdaForm nested scope) := by
  refine L.bind (L.expect (by decide) (by decide)) ?_
  rintro _ _ ⟨hp, rfl⟩
  refine L.bind (L.expect (by decide) (by decide)) ?_
  rintro parameter _ ⟨hx, rfl⟩
  refine L.bind (L.expect (by decide) (by decide)) ?_
  rintro _ _ ⟨hcomma, rfl⟩
  refine L.bind (L.position (Q := fun i q => i = p + 1 + 1 + 1 + 1 ∧ q = p + 1 + 1 + 1 + 1)
    ⟨rfl, rfl⟩) ?_
  rintro _ _ ⟨rfl, rfl⟩
  refine L.bind (L.skip (inner keeps)
    (Q := fun stop _ => Reads tokens .expression (p + 1 + 1 + 1 + 1) stop)
    fun v stop h => h.1) ?_
  rintro stop _ hr
  refine L.bind (L.setPosition (Q := fun _ q => q = stop) rfl) ?_
  rintro _ stop rfl
  refine L.bind (L.expect (by decide) (by decide)) ?_
  rintro _ _ ⟨hc, rfl⟩
  refine L.bind (L.newIdentity (Q := fun _ q => q = stop + 1) fun _ => rfl) ?_
  rintro identity _ rfl
  exact L.pure (h _ _ (.lambdaForm name hp hx hcomma hr hc) (.lambda (L.made hr)))

/-- A logic of the primitives can deal with the rules. -/
def rules : RuleLogic tokens P where
  Admits := L.Admits
  Holds := L.Holds
  pure := L.pure
  bind := L.bind
  fault founded := L.fault founded.ordinary
  tooDeep := L.tooDeep
  tokensLeft := L.tokensLeft
  position := L.position
  peek h := L.mono L.peek fun
    | token, _, ⟨ht, rfl⟩ => h token ht
  advance ht notEnd _ h := L.mono (L.advance (by simp [kindAt, ht]) notEnd) fun
    | _, _, ⟨ht', rfl⟩ => Option.some.inj (ht.symm.trans ht') ▸ h
  reference admits _ := L.word_of_bracketAt admits
  lookup admits _ := L.lookup admits
  newIdentity := L.newIdentity
  noteStep admits founded := L.noteStep admits founded.computed
  noticeUnknown live _ := L.noticeUnknown live
  noBinding := L.noBinding
  callLambda _ := L.callLambda
  lambdaForm name inner := L.lambdaForm name (inner L.dry)

/-! What holds of the rules holds in the logic. -/

theorem acceptOperator {symbol : String} :
    L.Holds p (fun found q => found = true ∧ operatorAt tokens p = some symbol ∧ q = p + 1 ∨
      found = false ∧ operatorAt tokens p ≠ some symbol ∧ q = p) (Eval.acceptOperator symbol) :=
  L.rules.acceptOperator

theorem operator? {γ : Type} {ofSymbol? : String → Option γ} :
    L.Holds p (fun op q => op = (operatorAt tokens p).bind ofSymbol? ∧ q = p)
      (Eval.operator? ofSymbol?) :=
  L.rules.operator?

theorem orNumericFault {x : Except NumericFault α} :
    L.Holds p (fun a q => x = .ok a ∧ q = p) (Eval.orNumericFault x) :=
  L.rules.orNumericFault

theorem newArray {items : List Value} (h : ∀ v ∈ items, v.EveryLambda P) :
    L.Holds p (fun v q => (Answer.newArray items).Gives v ∧ v.EveryLambda P ∧ q = p)
      (Eval.newArray items) :=
  L.rules.newArray h

theorem name {mode : Mode} {scope : Scope} {word : String} {Q : Value → Nat → Prop}
    (admits : L.Admits mode) (keeps : Keeps P scope) (h : ∀ v, v.EveryLambda P → Q v p) :
    L.Holds p Q (Rule.name mode scope word) :=
  L.rules.name keeps h (L.lookup admits h)

theorem number {token : Token} (kind : kindAt tokens p = some .number) :
    L.Holds p (L.Yields .primary p) (Rule.number token) :=
  L.rules.number kind

theorem combine {mode : Mode} (admits : L.Admits mode) {op : ArithmeticOp} {left right : Value} :
    L.Holds p (fun v q => v.EveryLambda P ∧ q = p) (Rule.combine mode op left right) :=
  L.rules.combine admits

/-- Whatever is read as an expression is one, and its value keeps the invariant. -/
theorem expression (depth : Nat) {mode : Mode} {scope : Scope} (admits : L.Admits mode)
    (keeps : Keeps P scope) :
    L.Holds p (L.Yields .expression p) (Formula.expression depth mode scope) :=
  L.rules.expression depth admits keeps

theorem readAll {depth : Nat} {mode : Mode} {scope : Scope} (admits : L.Admits mode)
    (keeps : Keeps P scope) :
    L.Holds p (L.Yields .expression p) (readAll depth mode scope) :=
  L.mono (L.rules.readAll depth admits keeps) fun _ _ h => h.1

end ReadingLogic

end Quarterly.Formula
