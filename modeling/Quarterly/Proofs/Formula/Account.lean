import Quarterly.Proofs.Formula.Rules

/-!
# Accounts of readings

What a reading does to the journal depends on the tokens it passes. An `Account` tells, token by
token, what may have become of the journal: passing a token, reading a reference with its brackets,
looking up a name, noting a step, calling a lambda. Whatever is true of all of these is true of
every reading that comes back, from the token where it starts to the one where it ends; a reading
that faults has got as far as some token.
-/

namespace Quarterly.Formula

/-! ### References in a row of tokens -/

/-- A reference with brackets: its name, what stands in the brackets, and the closing bracket. -/
structure Group where
  name : Token
  inside : Token
  closing : Token

namespace Group

/-- The index of a reference. Without one it is zero, which no quarter has. -/
def index (g : Group) : Int := (Rule.quarterIndex g.inside).toOption.getD 0

/-- A reference as it is written in a formula. -/
def slice (g : Group) (formula : List Char) : String :=
  sliceText formula g.name.position (g.closing.position + 1)

/-- What is noted of a reference that is looked up. -/
def substitution (g : Group) (c : Context) : Substitution :=
  ⟨g.slice c.formula, g.name.text, c.table.resolve g.name.text g.index⟩

end Group

/-- A reference with brackets stands at a position. -/
structure GroupAt (tokens : Array Token) (p : Nat) (g : Group) : Prop where
  name : tokens[p]? = some g.name
  kind : g.name.kind = .identifier
  opening : kindAt tokens (p + 1) = some .leftBracket
  inside : tokens[p + 2]? = some g.inside
  closing : tokens[p + 3]? = some g.closing
  closes : g.closing.kind = .rightBracket
  indexed : ∃ k, Rule.quarterIndex g.inside = .ok k

theorem GroupAt.reads {tokens : Array Token} {p : Nat} {g : Group} (h : GroupAt tokens p g) :
    Reads tokens .primary p (p + 4) := by
  obtain ⟨name, kind, opening, inside, closing, closes, k, hk⟩ := h
  refine .reference (by simp [kindAt, name, kind]) opening ?_ (by simp [kindAt, closing, closes])
  simpa [kindAt, inside] using kind_of_quarterIndex hk

/-! ### Accounts -/

/-- A fault that does not miss more in the library than what the tokens call. -/
def Fault.Called (tokens : Array Token) (fault : Fault) : Prop :=
  ∀ name, fault = .notInLibrary name → CallsMissing tokens name

/-- What readings do to the journal, from token to token. -/
structure Account (c : Context) (P : Lambda → Prop) where
  /-- The modes that the account can deal with. -/
  Admits : Mode → Prop
  /-- A reading that stands at one token with one journal may get to another token with another
  journal. -/
  leads : Nat → Journal → Nat → Journal → Prop
  refl : ∀ p j, leads p j p j
  trans : ∀ {p q r i j k}, leads p i q j → leads q j r k → leads p i r k
  passed : ∀ {p kind} j, kindAt c.tokens p = some kind → kind ≠ .endMark →
    ¬ BracketAt c.tokens p → leads p j (p + 1) j
  referred : ∀ {p g} j, Admits .live → GroupAt c.tokens p g →
    leads p j (p + 4) (j.lookedUp c g.name.text g.index (g.slice c.formula))
  skipped : ∀ {p g} j, Admits .dry → GroupAt c.tokens p g → leads p j (p + 4) j
  named : ∀ {p word} j, Admits .live → nameAt c.tokens p = some word →
    leads (p + 1) j (p + 1) (j.lookedUp c word 1 word)
  stepped : ∀ {mode step} p j, Admits mode → step.Founded c.tokens →
    leads p j p (j.stepped c mode step)
  noticed : ∀ {name} p (j : Journal), Admits .live → CallsUnknown c.tokens name →
    leads p j p { j with notices := j.notices.push (.unknownFunction name) }
  /-- A call goes through the body of a lambda and comes back to where it started. -/
  called : ∀ {f stop i j} p, P f → leads f.start i stop j → leads p i p j
  lambda : ∀ {p}, functionAt c.tokens p = some lambdaName → Admits .dry
  made : ∀ {p q parameter}, functionAt c.tokens p = some lambdaName →
    Reads c.tokens .expression (p + 4) q → P ⟨parameter, p + 4, q⟩

namespace Account

variable {c : Context} {P : Lambda → Prop} (A : Account c P) {α β : Type} {a p : Nat}

/-- Runs that start at the token `p` when the account stands at the token `a`. In the end the
account stands where the run ends. -/
def Holds (a p : Nat) (Q : α → Nat → Prop) (m : Eval α) : Prop :=
  ∀ s : State, s.position = p → ∀ o i, A.leads o i a s.journal →
    match m c s with
    | .ok v s' => A.leads o i s'.position s'.journal ∧ Q v s'.position
    | .error fault s' => (∃ q, A.leads o i q s'.journal) ∧ fault.Called c.tokens

/-- Runs that leave the journal as it is. -/
def Still (c : Context) (p : Nat) (Q : α → Nat → Prop) (m : Eval α) : Prop :=
  ∀ s : State, s.position = p →
    match m c s with
    | .ok v s' => s'.journal = s.journal ∧ Q v s'.position
    | .error fault s' => s'.journal = s.journal ∧ fault.Called c.tokens

namespace Still

theorem pure {Q : α → Nat → Prop} {v : α} (h : Q v p) : Still c p Q (pure v) := by
  rintro s rfl
  exact ⟨rfl, h⟩

theorem throw {Q : α → Nat → Prop} {fault : Fault} (h : fault.Called c.tokens) :
    Still c p Q (throw fault : Eval α) :=
  fun _ _ => ⟨rfl, h⟩

theorem bind {R : α → Nat → Prop} {Q : β → Nat → Prop} {m : Eval α} {f : α → Eval β}
    (hm : Still c p R m) (hf : ∀ v q, R v q → Still c q Q (f v)) : Still c p Q (m >>= f) := by
  intro s hs
  have first := hm s hs
  rw [run_bind]
  cases hr : m c s with
  | error fault s' =>
    rw [hr] at first
    exact first
  | ok v s' =>
    rw [hr] at first
    have second := hf v s'.position first.2 s' rfl
    rwa [first.1] at second

theorem tokenAt {i : Nat} {Q : Token → Nat → Prop}
    (h : ∀ token, c.tokens[i]? = some token → Q token p) : Still c p Q (Eval.tokenAt i) := by
  rintro s rfl
  rw [run_tokenAt]
  cases ht : c.tokens[i]? with
  | none => exact ⟨rfl, fun _ hf => by cases hf⟩
  | some token => exact ⟨rfl, h token ht⟩

theorem position {Q : Nat → Nat → Prop} (h : Q p p) : Still c p Q Eval.position := by
  rintro s rfl
  exact ⟨rfl, h⟩

theorem peek {Q : Token → Nat → Prop} (h : ∀ token, c.tokens[p]? = some token → Q token p) :
    Still c p Q Eval.peek := by
  refine bind (position (Q := fun i q => i = p ∧ q = p) ⟨rfl, rfl⟩) ?_
  rintro _ p ⟨rfl, rfl⟩
  exact tokenAt h

theorem advance {Q : Token → Nat → Prop} {token : Token} (ht : c.tokens[p]? = some token)
    (notEnd : token.kind ≠ .endMark) (h : Q token (p + 1)) : Still c p Q Eval.advance := by
  refine bind (peek (Q := fun t q => t = token ∧ q = p) fun t h' => ?_) ?_
  · exact ⟨Option.some.inj (h'.symm.trans ht), rfl⟩
  rintro _ p ⟨rfl, rfl⟩
  rw [if_pos notEnd]
  rintro s rfl
  exact ⟨rfl, h⟩

theorem expect {kind : TokenKind} {problem : SyntaxFault} {Q : Token → Nat → Prop}
    (notEnd : kind ≠ .endMark)
    (h : ∀ token, c.tokens[p]? = some token → token.kind = kind → Q token (p + 1)) :
    Still c p Q (Eval.expect kind problem) := by
  refine bind (peek (Q := fun t q => c.tokens[p]? = some t ∧ q = p) fun t h' => ⟨h', rfl⟩) ?_
  rintro token p ⟨ht, rfl⟩
  split
  · rename_i hk
    exact advance ht (hk ▸ notEnd) (h token ht hk)
  · exact throw fun _ hf => by cases hf

theorem orFault {Q : α → Nat → Prop} {x : Except Fault α}
    (called : ∀ fault, x = .error fault → fault.Called c.tokens) (h : ∀ v, x = .ok v → Q v p) :
    Still c p Q (Eval.orFault x) := by
  cases x with
  | ok v => exact pure (h v rfl)
  | error fault => exact throw (called fault rfl)

end Still

/-! ### Putting runs together -/

variable {A}

theorem Holds.bind {R : α → Nat → Prop} {Q : β → Nat → Prop} {m : Eval α} {f : α → Eval β}
    (hm : A.Holds a p R m) (hf : ∀ v q, R v q → A.Holds q q Q (f v)) :
    A.Holds a p Q (m >>= f) := by
  intro s hs o i along
  have first := hm s hs o i along
  rw [run_bind]
  cases hr : m c s with
  | error fault s' =>
    rw [hr] at first
    exact first
  | ok v s' =>
    rw [hr] at first
    exact hf v s'.position first.2 s' rfl o i first.1

/-- The account stays where it is while the journal does. -/
theorem Holds.after {R : α → Nat → Prop} {Q : β → Nat → Prop} {m : Eval α} {f : α → Eval β}
    (hm : Still c p R m) (hf : ∀ v q, R v q → A.Holds a q Q (f v)) :
    A.Holds a p Q (m >>= f) := by
  intro s hs o i along
  have first := hm s hs
  rw [run_bind]
  cases hr : m c s with
  | error fault s' =>
    rw [hr] at first
    exact ⟨⟨a, first.1 ▸ along⟩, first.2⟩
  | ok v s' =>
    rw [hr] at first
    exact hf v s'.position first.2 s' rfl o i (first.1 ▸ along)

theorem Holds.of_still {R Q : α → Nat → Prop} {m : Eval α} (h : Still c p R m)
    (ends : ∀ v q, R v q → (∀ j, A.leads a j q j) ∧ Q v q) : A.Holds a p Q m := by
  intro s hs o i before
  have run := h s hs
  cases hr : m c s with
  | error fault s' =>
    rw [hr] at run
    exact ⟨⟨a, run.1 ▸ before⟩, run.2⟩
  | ok v s' =>
    rw [hr] at run
    obtain ⟨along, hq⟩ := ends v s'.position run.2
    exact ⟨run.1 ▸ A.trans before (along s.journal), hq⟩

/-- The account catches up with the reading. -/
theorem Holds.catchUp {Q : α → Nat → Prop} {m : Eval α} (along : ∀ j, A.leads a j p j)
    (h : A.Holds p p Q m) : A.Holds a p Q m :=
  fun s hs o i before => h s hs o i (A.trans before (along s.journal))

theorem Holds.read {Q : α → Nat → Prop} {f : Context → Eval α} (h : A.Holds a p Q (f c)) :
    A.Holds a p Q (do f (← read)) :=
  h

/-- A computation that comes back from every state. -/
theorem Holds.of_ok {Q : α → Nat → Prop} {m : Eval α} (v : State → α) (next : State → State)
    (run : ∀ s, m c s = .ok (v s) (next s))
    (along : ∀ s, s.position = p → A.leads a s.journal (next s).position (next s).journal)
    (ends : ∀ s, s.position = p → Q (v s) (next s).position) : A.Holds a p Q m := by
  intro s hs o i before
  rw [run]
  exact ⟨A.trans before (along s hs), ends s hs⟩

/-! ### The rules -/

theorem lookup {Q : Value → Nat → Prop} {mode : Mode} {metric reference : String} {index : Int}
    (live : A.Admits mode → mode = .live → ∀ j, A.leads a j p (j.lookedUp c metric index reference))
    (dry : A.Admits mode → mode = .dry → ∀ j, A.leads a j p j) (admits : A.Admits mode)
    (ends : ∀ v : Value, v.EveryLambda P → Q v p) :
    A.Holds a p Q (Rule.lookup mode metric index reference) := by
  cases mode with
  | dry =>
    refine .of_ok (fun _ => .null) id (fun _ => rfl) ?_ ?_
    · rintro s rfl
      exact dry admits rfl s.journal
    · rintro s rfl
      exact ends _ (.scalar trivial)
  | live =>
    refine .of_ok _ _ (fun s => run_lookup_live c s metric index reference) ?_ ?_
    · rintro s rfl
      exact live admits rfl s.journal
    · rintro s rfl
      exact ends _ (.scalar (isScalar_lookupValue _))

theorem reference {Q : Value → Nat → Prop} {token : Token} {mode : Mode} {nested : Nested}
    {scope : Scope} (admits : A.Admits mode) (ht : c.tokens[p]? = some token)
    (bracket : BracketAt c.tokens p)
    (ends : ∀ v, Reads c.tokens .primary p (p + 4) → v.EveryLambda P → Q v (p + 4)) :
    A.Holds p p Q (Rule.word nested mode scope token) := by
  obtain ⟨named, opening⟩ := bracket
  have kind : token.kind = .identifier := by simpa [kindAt, ht] using named
  refine .after (Still.advance ht (by simp [kind]) (Q := fun _ q => q = p + 1) rfl) ?_
  rintro _ _ rfl
  refine .after (Still.peek (Q := fun t q => c.tokens[p + 1]? = some t ∧ q = p + 1)
    fun _ h => ⟨h, rfl⟩) ?_
  rintro bracket _ ⟨hb, rfl⟩
  have opens : bracket.kind = .leftBracket := by simpa [kindAt, hb] using opening
  simp only [opens]
  refine .after (Still.advance hb (by simp [opens]) (Q := fun _ q => q = p + 2) rfl) ?_
  rintro _ _ rfl
  refine .after (Still.peek (Q := fun t q => c.tokens[p + 2]? = some t ∧ q = p + 2)
    fun _ h => ⟨h, rfl⟩) ?_
  rintro inside _ ⟨hi, rfl⟩
  refine .after (Still.orFault (Q := fun k q => Rule.quarterIndex inside = .ok k ∧ q = p + 2)
    (fun _ h => (Fault.Founded.quarterIndex h).called) fun _ h => ⟨h, rfl⟩) ?_
  rintro k _ ⟨hk, rfl⟩
  have notEnd : inside.kind ≠ .endMark := by
    rcases kind_of_quarterIndex hk with h | h <;> simp [h]
  refine .after (Still.advance hi notEnd (Q := fun _ q => q = p + 3) rfl) ?_
  rintro _ _ rfl
  refine .after (Still.expect (by decide)
    (Q := fun t q => (c.tokens[p + 3]? = some t ∧ t.kind = .rightBracket) ∧ q = p + 4)
    fun _ h hk => ⟨⟨h, hk⟩, rfl⟩) ?_
  rintro closing _ ⟨⟨hc, closes⟩, rfl⟩
  let g : Group := ⟨token, inside, closing⟩
  have here : GroupAt c.tokens p g := ⟨ht, kind, opening, hi, hc, closes, k, hk⟩
  have index : g.index = k := by simp [Group.index, g, hk]; rfl
  refine .read ?_
  rw [← index]
  change A.Holds p (p + 4) Q (Rule.lookup mode g.name.text g.index (g.slice c.formula))
  exact lookup (fun admits live j => A.referred j (live ▸ admits) here)
    (fun admits dry j => A.skipped j (dry ▸ admits) here) admits fun v hv => ends v here.reads hv

theorem elsewhere {f : Lambda} {R : α → Nat → Prop} {Q : α × Nat → Nat → Prop} {inner : Eval α}
    (hf : P f) (hi : A.Holds f.start f.start R inner)
    (ends : ∀ v stop, R v stop → Q (v, stop) p) :
    A.Holds p p Q (Eval.elsewhere f.start inner) := by
  rintro s rfl o i before
  have run := hi { s with position := f.start } rfl f.start s.journal (A.refl _ _)
  unfold Eval.elsewhere
  cases hr : inner c { s with position := f.start } with
  | error fault s' =>
    rw [hr] at run
    obtain ⟨⟨q, along⟩, called⟩ := run
    exact ⟨⟨_, A.trans before (A.called _ hf along)⟩, called⟩
  | ok v s' =>
    rw [hr] at run
    exact ⟨A.trans before (A.called _ hf run.1), ends v s'.position run.2⟩

theorem callLambda {Q : Value → Nat → Prop} {nested : Nested} {scope : Scope} {f : Lambda}
    {argument : Value}
    (body : ∀ {p scope}, Keeps P scope → A.Holds p p
      (fun v q => Reads c.tokens .expression p q ∧ v.EveryLambda P) (nested.body scope))
    (keeps : Keeps P scope) (hf : P f) (ha : argument.EveryLambda P)
    (ends : ∀ v, v.EveryLambda P → Q v p) :
    A.Holds p p Q (Rule.callLambda nested scope f argument) := by
  refine .bind (elsewhere hf (body (keeps.cons ha))
    (Q := fun r q => r.1.EveryLambda P ∧ q = p) fun v stop h => ⟨h.2, rfl⟩) ?_
  rintro ⟨v, stop⟩ p ⟨hv, rfl⟩
  refine .of_still (R := fun u q => u = v ∧ q = p) ?_ fun
    | _, _, ⟨rfl, rfl⟩ => ⟨A.refl p, ends v hv⟩
  dsimp only
  split
  · refine .bind (.tokenAt (Q := fun _ _ => True) fun _ _ => trivial) fun token _ _ => ?_
    exact .bind (R := fun _ _ => False) (.throw fun _ hf => by cases hf) fun _ _ h => h.elim
  · exact .pure ⟨rfl, rfl⟩

/-- The body of a lambda is read dry, and the reading goes on where that ended. -/
theorem skip {Q : Value → Nat → Prop} {nested : Nested} {scope : Scope} {f : Nat → Eval Value}
    (inner : A.Holds p p (fun v q => Reads c.tokens .expression p q ∧ v.EveryLambda P)
      (nested.expression .dry scope))
    (after : ∀ stop, Reads c.tokens .expression p stop → A.Holds stop stop Q (f stop)) :
    A.Holds p p Q (do
      let stop ← Rule.skip nested scope
      Eval.setPosition stop
      f stop) := by
  rintro s rfl o i before
  have run := inner s rfl o i before
  rw [run_bind, run_skip]
  cases hr : nested.expression .dry scope c s with
  | error fault s' =>
    rw [hr] at run
    exact run
  | ok v s' =>
    rw [hr] at run
    exact after s'.position run.2.1 { s' with nextIdentity := s.nextIdentity } rfl o i run.1

theorem lambdaForm {Q : Value → Nat → Prop} {nested : Nested} {scope : Scope}
    (name : functionAt c.tokens p = some lambdaName)
    (inner : ∀ {p scope}, A.Admits .dry → Keeps P scope → A.Holds p p
      (fun v q => Reads c.tokens .expression p q ∧ v.EveryLambda P) (nested.expression .dry scope))
    (keeps : Keeps P scope)
    (ends : ∀ v q, Reads c.tokens .primary p q → v.EveryLambda P → Q v q) :
    A.Holds (p + 1) (p + 1) Q (Rule.lambdaForm nested scope) := by
  refine .after (Still.expect (by decide)
    (Q := fun _ q => kindAt c.tokens (p + 1) = some .leftParen ∧ q = p + 2)
    fun _ h hk => ⟨by simp [kindAt, h, hk], rfl⟩) ?_
  rintro _ _ ⟨opening, rfl⟩
  refine .after (Still.expect (by decide)
    (Q := fun _ q => kindAt c.tokens (p + 2) = some .identifier ∧ q = p + 3)
    fun _ h hk => ⟨by simp [kindAt, h, hk], rfl⟩) ?_
  rintro parameter _ ⟨named, rfl⟩
  refine .after (Still.expect (by decide)
    (Q := fun _ q => kindAt c.tokens (p + 3) = some .comma ∧ q = p + 4)
    fun _ h hk => ⟨by simp [kindAt, h, hk], rfl⟩) ?_
  rintro _ _ ⟨comma, rfl⟩
  have passed (j : Journal) : A.leads (p + 1) j (p + 4) j := by
    have first := A.passed j opening (by decide) (by simp [BracketAt, opening])
    have second := A.passed j named (by decide) (by simp [BracketAt, comma])
    have third := A.passed j comma (by decide) (by simp [BracketAt, comma])
    exact A.trans (A.trans first second) third
  refine .catchUp passed ?_
  refine .after (Still.position (Q := fun i q => i = p + 4 ∧ q = p + 4) ⟨rfl, rfl⟩) ?_
  rintro _ _ ⟨rfl, rfl⟩
  refine skip (inner (A.lambda name) keeps) fun stop body => ?_
  refine .after (Still.expect (by decide)
    (Q := fun _ q => kindAt c.tokens stop = some .rightParen ∧ q = stop + 1)
    fun _ h hk => ⟨by simp [kindAt, h, hk], rfl⟩) ?_
  rintro _ _ ⟨closing, rfl⟩
  have past (j : Journal) : A.leads stop j (stop + 1) j :=
    A.passed j closing (by decide) (by simp [BracketAt, closing])
  refine .of_ok (fun s => .lambda s.nextIdentity ⟨parameter.text, p + 4, stop⟩)
    (fun s => { s with nextIdentity := s.nextIdentity + 1 }) (fun _ => rfl) ?_ ?_
  · rintro s hs
    exact hs ▸ past s.journal
  · rintro s hs
    refine hs ▸ ends _ _ (.lambdaForm name opening named comma body closing) ?_
    exact .lambda (A.made name body)

theorem noBinding {Q : Scope → Nat → Prop} {nested : Nested} {mode : Mode} {rounds : Nat}
    {scope : Scope} (noBinding : ¬ BindingAt c.tokens p) (ends : Q scope p) :
    A.Holds p p Q (Rule.bindings nested mode (rounds + 1) scope) := by
  refine .of_still (R := fun r q => r = scope ∧ q = p) ?_ fun
    | _, _, ⟨rfl, rfl⟩ => ⟨A.refl p, ends⟩
  refine .bind (.peek (Q := fun t q => c.tokens[p]? = some t ∧ q = p) fun _ h => ⟨h, rfl⟩) ?_
  rintro token p ⟨ht, rfl⟩
  split
  · exact .pure ⟨rfl, rfl⟩
  rename_i named
  have kind : token.kind = .identifier := by simpa using named
  refine .bind (.position (Q := fun i q => i = p ∧ q = p) ⟨rfl, rfl⟩) ?_
  rintro _ p ⟨rfl, rfl⟩
  refine .bind (.advance ht (by simp [kind]) (Q := fun _ q => q = p + 1) rfl) ?_
  rintro name _ rfl
  refine .bind (R := fun found q => found = false) ?_ ?_
  · refine .bind (.peek (Q := fun t q => c.tokens[p + 1]? = some t) fun _ h => h) ?_
    intro next q hn
    have noComma : next.kind ≠ .comma := fun comma =>
      noBinding ⟨by simp [kindAt, ht, kind], by simp [kindAt, hn, comma]⟩
    rw [if_neg noComma]
    exact .pure rfl
  · rintro _ q rfl
    exact .bind (R := fun _ q => q = p) (fun s _ => ⟨rfl, rfl⟩) fun _ _ h => .pure ⟨rfl, h⟩

/-- The rules of the grammar keep account. -/
def rules (A : Account c P) : RuleLogic c.tokens P where
  Admits := A.Admits
  Holds p Q m := A.Holds p p Q m
  pure {α p Q v} h := .of_still (.pure (Q := fun u q => u = v ∧ q = p) ⟨rfl, rfl⟩) fun
    | _, _, ⟨rfl, rfl⟩ => ⟨A.refl p, h⟩
  bind := .bind
  fault {α p Q fault} founded := .of_still (R := fun _ _ => False) (.throw founded.called)
    fun _ _ h => h.elim
  tooDeep := fun _ _ _ _ before => ⟨⟨_, before⟩, fun _ hf => by cases hf⟩
  tokensLeft {p Q} ends := .of_ok (fun s => c.tokens.size - s.position) id (fun _ => rfl)
    (fun _ hs => hs ▸ A.refl _ _) fun _ hs => hs ▸ ends _
  position {p Q} ends := .of_ok State.position id (fun _ => rfl) (fun _ hs => hs ▸ A.refl _ _)
    fun _ hs => hs ▸ ends
  peek {p Q} ends := .of_still (.peek (Q := fun t q => c.tokens[p]? = some t ∧ q = p)
    fun _ h => ⟨h, rfl⟩) fun
    | _, _, ⟨ht, rfl⟩ => ⟨A.refl p, ends _ ht⟩
  advance {p Q token} ht notEnd noBracket ends := .of_still
    (.advance ht notEnd (Q := fun t q => t = token ∧ q = p + 1) ⟨rfl, rfl⟩) fun
    | _, _, ⟨rfl, rfl⟩ => ⟨fun j => A.passed j (by simp [kindAt, ht]) notEnd noBracket, ends⟩
  reference := reference
  lookup admits named ends := lookup (fun admits live j => A.named j (live ▸ admits) named)
    (fun _ _ j => A.refl _ j) admits ends
  newIdentity {p Q} ends := .of_ok State.nextIdentity _ (fun _ => rfl)
    (fun _ hs => hs ▸ A.refl _ _) fun _ hs => hs ▸ ends _
  noteStep {p Q mode step} admits founded ends := .of_ok (fun _ => ()) _
    (fun s => run_noteStep c s mode step) (fun s hs => hs ▸ A.stepped _ s.journal admits founded)
    fun _ hs => hs ▸ ends
  noticeUnknown live called ends := .of_ok (fun _ => ()) _ (fun s => run_notice c s _)
    (fun s hs => hs ▸ A.noticed _ s.journal live called) fun _ hs => hs ▸ ends
  noBinding := noBinding
  callLambda _ := callLambda
  lambdaForm := lambdaForm

/-- What becomes of the journal in an evaluation: it leads from the first token to the last one, or
as far as the evaluation gets, and what is missing in the library is called by some token. -/
theorem evaluate (A : Account c P) (mode : Mode) (admits : A.Admits mode) :
    (∀ v, (Formula.evaluate c mode []).outcome = .ok v →
      ∃ q, A.leads 0 {} q (Formula.evaluate c mode []).journal ∧
        Reads c.tokens .expression 0 q ∧ kindAt c.tokens q = some .endMark) ∧
    ∀ fault, (Formula.evaluate c mode []).outcome = .error fault →
      (∃ q, A.leads 0 {} q (Formula.evaluate c mode []).journal) ∧ fault.Called c.tokens := by
  have run := A.rules.readAll c.maxDepth.toNat admits .nil (.start []) rfl 0 {} (A.refl 0 {})
  rw [evaluate_eq]
  cases hr : readAll c.maxDepth.toNat mode [] c (.start []) with
  | ok v s =>
    rw [hr] at run
    obtain ⟨along, reads, atEnd⟩ := run
    exact ⟨fun _ _ => ⟨_, along, reads.1, atEnd⟩, fun _ h => by cases h⟩
  | error fault s =>
    rw [hr] at run
    refine ⟨fun _ h => (by cases h), fun other h => ?_⟩
    cases h
    exact run

end Account

end Quarterly.Formula
