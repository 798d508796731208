import Quarterly.Proofs.Formula.Discipline

/-!
# Two readings in lockstep

Two readings of the same tokens, from the same place but in different scopes and over different
tables, have different values to deal with. The tokens decide what is read next, so the readings
stay side by side: they end at the same token or with the same fault. Only a fault of a computation
on values can end one of them alone. A `Side` says what is known of the values of one reading and
which faults may end it alone.
-/

namespace Quarterly.Formula

/-! ### One of two readings -/

/-- One of two readings: its context, an invariant of its values, and the faults that may end it
alone. The invariant is kept by operators, unless they end with such a fault. -/
structure Side where
  context : Context
  Good : Value → Prop
  Excuses : Fault → Prop
  null : Good .null
  bool : ∀ b, Good (.bool b)
  text : ∀ s, Good (.text s)
  array : ∀ identity items, Good (.array identity items)
  lambda : ∀ identity f, Good (.lambda identity f)
  numeral : ∀ x : Float, Good (.ofFinite (.double x))
  found : ∀ found, Good (lookupValue found)
  negate : ∀ {v}, Good v → Good (negate v)
  arithmetic : ∀ {op a b}, Good a → Good b →
    Meets (arithmetic op a b) Good fun cause => Excuses (.numeric cause)
  comparison : ∀ {op a b}, Good a → Good b →
    Meets (comparison op a b) (fun _ => True) fun cause => Excuses (.numeric cause)
  percent : ∀ {n}, Good (.number n) → Meets (percent n) Good fun cause => Excuses (.numeric cause)

namespace Side

variable (A : Side) {α β : Type}

/-- The values that a scope binds keep the invariant. -/
def Keeps (scope : Scope) : Prop := ∀ binding ∈ scope, A.Good binding.2

/-- A computation that reads no tokens and faults only with what is excused. -/
def Alone (Q : α → Prop) (m : Eval α) : Prop :=
  ∀ s, match m A.context s with
    | .ok a s' => Q a ∧ s'.position = s.position
    | .error fault _ => A.Excuses fault

variable {A}

theorem Keeps.cons {scope : Scope} {name : String} {v : Value} (keeps : A.Keeps scope)
    (hv : A.Good v) : A.Keeps ((name, v) :: scope) :=
  List.forall_mem_cons.mpr ⟨hv, keeps⟩

theorem Keeps.lookup {scope : Scope} {name : String} {v : Value} (keeps : A.Keeps scope)
    (hv : scope.lookup name = some v) : A.Good v :=
  keeps _ (Scope.mem_of_lookup hv)

namespace Alone

theorem pure {Q : α → Prop} {a : α} (h : Q a) : A.Alone Q (pure a : Eval α) := by
  intro s
  exact ⟨h, rfl⟩

theorem throw {Q : α → Prop} {fault : Fault} (h : A.Excuses fault) :
    A.Alone Q (throw fault : Eval α) := by
  intro s
  exact h

theorem bind {R : α → Prop} {Q : β → Prop} {m : Eval α} {f : α → Eval β} (hm : A.Alone R m)
    (hf : ∀ a, R a → A.Alone Q (f a)) : A.Alone Q (m >>= f) := by
  intro s
  have first := hm s
  rw [run_bind]
  cases hr : m A.context s with
  | error fault s' =>
    rw [hr] at first
    exact first
  | ok a s' =>
    rw [hr] at first
    obtain ⟨ha, same⟩ := first
    have second := hf a ha s'
    rw [same] at second
    exact second

theorem orNumericFault {Q : α → Prop} {x : Except NumericFault α}
    (h : Meets x Q fun cause => A.Excuses (.numeric cause)) :
    A.Alone Q (Eval.orNumericFault x) := by
  cases x with
  | ok a => exact pure h
  | error cause => exact throw h

theorem noteStep {mode : Mode} {step : Step} :
    A.Alone (fun _ => True) (Eval.noteStep mode step) := by
  intro s
  rw [run_noteStep]
  exact ⟨trivial, rfl⟩

theorem notice {n : Notice} : A.Alone (fun _ => True) (Eval.notice n) := by
  intro s
  exact ⟨trivial, rfl⟩

theorem newArray {items : List Value} : A.Alone A.Good (Eval.newArray items) := by
  intro s
  exact ⟨A.array s.nextIdentity items, rfl⟩

theorem lookup {mode : Mode} {metric reference : String} {index : Int} :
    A.Alone A.Good (Rule.lookup mode metric index reference) := by
  intro s
  cases mode with
  | dry => exact ⟨A.null, rfl⟩
  | live =>
    rw [run_lookup_live]
    exact ⟨A.found _, rfl⟩

theorem name {mode : Mode} {scope : Scope} {word : String} (keeps : A.Keeps scope) :
    A.Alone A.Good (Rule.name mode scope word) := by
  unfold Rule.name
  cases hv : scope.lookup word with
  | some v => exact pure (keeps.lookup hv)
  | none => exact lookup

/-- The value, or a hundredth of it if it is a number. -/
theorem percent {mode : Mode} {v : Value} :
    A.Good v → A.Alone A.Good (match v with
      | .number n => do
        let result ← Eval.orNumericFault (Formula.percent n)
        Eval.noteStep mode (.percent v result)
        return result
      | _ => return v) := by
  intro hv
  cases v with
  | number n =>
    apply bind (orNumericFault (A.percent hv))
    intro result good
    exact bind noteStep fun _ _ => pure good
  | _ => exact pure hv

theorem combine {mode : Mode} {op : ArithmeticOp} {a b : Value} (ha : A.Good a)
    (hb : A.Good b) : A.Alone A.Good (Rule.combine mode op a b) := by
  apply bind (orNumericFault (A.arithmetic ha hb))
  intro result good
  exact bind noteStep fun _ _ => pure good

theorem compare {mode : Mode} {op : ComparisonOp} {a b : Value} (ha : A.Good a) (hb : A.Good b) :
    A.Alone A.Good (do
      let result ← Eval.orNumericFault (Formula.comparison op a b)
      Eval.noteStep mode (.comparison op a b result)
      return .bool result) := by
  apply bind (orNumericFault (A.comparison ha hb))
  intro result _
  exact bind noteStep fun _ _ => pure (A.bool result)

end Alone

end Side

/-! ### Both of them -/

/-- Two readings of the same tokens. -/
structure Pair where
  left : Side
  right : Side
  tokens : right.context.tokens = left.context.tokens

namespace Pair

variable (w : Pair) {α β α' β' : Type}

/-- How two runs end together: at the same token, with the same fault, or as soon as one of them
ends with a fault that it may have alone. -/
inductive Ends (R : α → α' → Prop) :
    EStateM.Result Fault State α → EStateM.Result Fault State α' → Prop where
  | ok {a b s t} (h : R a b) (same : t.position = s.position) : Ends R (.ok a s) (.ok b t)
  | fault {fault s t} : Ends R (.error fault s) (.error fault t)
  | left {fault s finish} (h : w.left.Excuses fault) : Ends R (.error fault s) finish
  | right {fault t finish} (h : w.right.Excuses fault) : Ends R finish (.error fault t)

/-- Runs from the same token end together. -/
def Together (R : α → α' → Prop) (m : Eval α) (n : Eval α') : Prop :=
  ∀ s t : State, t.position = s.position → w.Ends R (m w.left.context s) (n w.right.context t)

/-- The invariants of both sides. -/
def Good (u v : Value) : Prop := w.left.Good u ∧ w.right.Good v

/-- The invariants of both sides, in scope. -/
def Keeps (scope scope' : Scope) : Prop := w.left.Keeps scope ∧ w.right.Keeps scope'

variable {w}

theorem Keeps.cons {scope scope' : Scope} {name : String} {u v : Value}
    (keeps : w.Keeps scope scope') (h : w.Good u v) :
    w.Keeps ((name, u) :: scope) ((name, v) :: scope') :=
  ⟨keeps.1.cons h.1, keeps.2.cons h.2⟩

namespace Together

theorem pure {R : α → α' → Prop} {a : α} {b : α'} (h : R a b) :
    w.Together R (pure a) (pure b) := by
  intro s t same
  exact .ok h same

theorem throw {R : α → α' → Prop} {fault : Fault} :
    w.Together R (throw fault : Eval α) (throw fault : Eval α') := by
  intro s t _
  exact .fault

theorem bind {R : α → α' → Prop} {Q : β → β' → Prop} {m : Eval α} {n : Eval α'}
    {f : α → Eval β} {g : α' → Eval β'} (hm : w.Together R m n)
    (hf : ∀ a b, R a b → w.Together Q (f a) (g b)) : w.Together Q (m >>= f) (n >>= g) := by
  intro s t same
  have first := hm s t same
  rw [run_bind, run_bind]
  generalize m w.left.context s = here at first
  generalize n w.right.context t = there at first
  cases first with
  | ok h same => exact hf _ _ h _ _ same
  | fault => exact .fault
  | left h => exact .left h
  | right h => exact .right h

/-- Runs that go on with the same result. -/
theorem after {Q : β → β' → Prop} {m n : Eval α} {f : α → Eval β} {g : α → Eval β'}
    (hm : w.Together Eq m n) (hf : ∀ a, w.Together Q (f a) (g a)) :
    w.Together Q (m >>= f) (n >>= g) := by
  apply bind hm
  rintro a _ rfl
  exact hf a

/-- Runs whose results do not matter. -/
theorem before {R : α → α' → Prop} {Q : β → β' → Prop} {m : Eval α} {n : Eval α'} {f : Eval β}
    {g : Eval β'} (hm : w.Together R m n) (hf : w.Together Q f g) :
    w.Together Q (m >>= fun _ => f) (n >>= fun _ => g) :=
  bind hm fun _ _ _ => hf

theorem alone {Q : α → Prop} {R : α' → Prop} {m : Eval α} {n : Eval α'}
    (hm : w.left.Alone Q m) (hn : w.right.Alone R n) :
    w.Together (fun a b => Q a ∧ R b) m n := by
  intro s t same
  have here := hm s
  have there := hn t
  cases hl : m w.left.context s with
  | error fault s' =>
    rw [hl] at here
    exact .left here
  | ok a s' =>
    cases hr : n w.right.context t with
    | error fault t' =>
      rw [hr] at there
      exact .right there
    | ok b t' =>
      rw [hl] at here
      rw [hr] at there
      exact .ok ⟨here.1, there.1⟩ (by rw [there.2, same, here.2])

theorem ite {R : α → α' → Prop} {p : Prop} [Decidable p] {m n : Eval α} {m' n' : Eval α'}
    (yes : w.Together R m m') (no : w.Together R n n') :
    w.Together R (if p then m else n) (if p then m' else n') := by
  split
  · exact yes
  · exact no

/-! ### Tokens -/

theorem position : w.Together Eq Eval.position Eval.position := by
  intro s t same
  exact .ok same.symm same

theorem tokensLeft : w.Together Eq Eval.tokensLeft Eval.tokensLeft := by
  intro s t same
  refine .ok ?_ same
  rw [w.tokens, same]

theorem tokenAt (i : Nat) : w.Together Eq (Eval.tokenAt i) (Eval.tokenAt i) := by
  intro s t same
  rw [run_tokenAt, run_tokenAt, w.tokens]
  cases w.left.context.tokens[i]? with
  | none => exact .fault
  | some token => exact .ok rfl same

theorem setPosition (i : Nat) : w.Together Eq (Eval.setPosition i) (Eval.setPosition i) := by
  intro s t _
  exact .ok rfl rfl

theorem peek : w.Together Eq Eval.peek Eval.peek :=
  after position tokenAt

theorem advance : w.Together Eq Eval.advance Eval.advance := by
  apply after peek
  intro token
  apply ite _ (pure rfl)
  apply after position
  intro i
  exact after (setPosition (i + 1)) fun _ => pure rfl

theorem accept (kind : TokenKind) : w.Together Eq (Eval.accept kind) (Eval.accept kind) := by
  apply after peek
  intro token
  exact ite (after advance fun _ => pure rfl) (pure rfl)

theorem acceptOperator (symbol : String) :
    w.Together Eq (Eval.acceptOperator symbol) (Eval.acceptOperator symbol) := by
  apply after peek
  intro token
  exact ite (after advance fun _ => pure rfl) (pure rfl)

theorem expect (kind : TokenKind) (problem : SyntaxFault) :
    w.Together Eq (Eval.expect kind problem) (Eval.expect kind problem) := by
  apply after peek
  intro token
  exact ite advance throw

theorem operator? {γ : Type} (ofSymbol? : String → Option γ) :
    w.Together Eq (Eval.operator? ofSymbol?) (Eval.operator? ofSymbol?) :=
  after peek fun _ => pure rfl

theorem orFault (x : Except Fault α) : w.Together Eq (Eval.orFault x) (Eval.orFault x) := by
  cases x with
  | ok a => exact pure rfl
  | error fault => exact throw

/-! ### Readings within a reading -/

theorem skip {R : Value → Value → Prop} {nested nested' : Nested} {scope scope' : Scope}
    (h : w.Together R (nested.expression .dry scope) (nested'.expression .dry scope')) :
    w.Together Eq (Rule.skip nested scope) (Rule.skip nested' scope') := by
  intro s t same
  have ends := h s t same
  rw [run_skip, run_skip]
  generalize nested.expression .dry scope w.left.context s = here at ends
  generalize nested'.expression .dry scope' w.right.context t = there at ends
  cases ends with
  | ok _ stop => exact .ok stop.symm same
  | fault => exact .fault
  | left h => exact .left h
  | right h => exact .right h

/-! ### Words without parts -/

theorem number (token : Token) : w.Together w.Good (Rule.number token) (Rule.number token) := by
  apply after advance
  intro _
  apply after (orFault _)
  intro x
  exact pure ⟨w.left.numeral x, w.right.numeral x⟩

theorem reference (mode : Mode) (token : Token) :
    w.Together w.Good (Rule.reference mode token) (Rule.reference mode token) := by
  apply after advance
  intro _
  apply after peek
  intro index
  apply after (orFault _)
  intro k
  apply after advance
  intro _
  apply after (expect _ _)
  intro closing s t same
  exact alone .lookup .lookup s t same

/-! ### Lists of expressions -/

section

variable {item item' : Eval Value} (together : w.Together w.Good item item')

include together

theorem moreItems (rounds : Nat) {items items' : Array Value} (same : items.size = items'.size) :
    w.Together (fun vs vs' => vs.size = vs'.size) (Rule.moreItems item rounds items)
      (Rule.moreItems item' rounds items') := by
  -- Only the number of items is kept: an array is good whatever its items are.
  induction rounds generalizing items items' with
  | zero => exact throw
  | succ rounds ih =>
    apply after (accept _)
    intro more
    refine ite ?_ (pure same)
    apply bind together
    intro u v _
    apply ih
    simp only [Array.size_push, same]

theorem items (closing : TokenKind) (problem : SyntaxFault) :
    w.Together (fun vs vs' => vs.length = vs'.length) (Rule.items item closing problem)
      (Rule.items item' closing problem) := by
  have ended : ∀ vs vs' : Array Value, vs.size = vs'.size →
      w.Together (fun vs vs' => vs.length = vs'.length)
        (do let _ ← Eval.expect closing problem; return vs.toList)
        (do let _ ← Eval.expect closing problem; return vs'.toList) := by
    intro vs vs' same
    exact after (expect _ _) fun _ => pure (by simpa using same)
  apply after peek
  intro token
  split
  · exact after (pure rfl) fun vs => ended vs vs rfl
  · apply bind together
    intro u v _
    apply after tokensLeft
    intro rounds
    exact bind (moreItems together rounds rfl) ended

theorem array : w.Together w.Good (Rule.array item) (Rule.array item') := by
  apply after advance
  intro _
  apply bind (items together _ _)
  intro vs vs' _
  exact alone .newArray .newArray

theorem arguments (function : String) :
    w.Together (fun vs vs' => vs.length = vs'.length) (Rule.arguments item function)
      (Rule.arguments item' function) :=
  after (expect _ _) fun _ => items together _ _

theorem parenthesized :
    w.Together w.Good (Rule.parenthesized item) (Rule.parenthesized item') := by
  apply after advance
  intro _
  apply bind together
  intro u v good
  exact after (expect _ _) fun _ => pure good

theorem chain (ops : String → Option ArithmeticOp) (mode : Mode) (rounds : Nat) {a b : Value}
    (good : w.Good a b) :
    w.Together w.Good (Rule.chain item ops mode rounds a) (Rule.chain item' ops mode rounds b) := by
  induction rounds generalizing a b with
  | zero => exact throw
  | succ rounds ih =>
    apply after (operator? _)
    intro op
    cases op with
    | none => exact pure good
    | some op =>
      apply after advance
      intro _
      apply bind together
      intro u v right
      apply bind (alone (.combine good.1 right.1) (.combine good.2 right.2))
      intro u v result
      exact ih result

theorem level (ops : String → Option ArithmeticOp) (mode : Mode) :
    w.Together w.Good (Rule.level item ops mode) (Rule.level item' ops mode) := by
  apply bind together
  intro u v good
  apply after tokensLeft
  intro rounds
  exact chain together ops mode rounds good

end

end Together

/-! ### Expressions -/

variable (w)

/-- What the rules of an expression may rely on: expressions nested in it are read together, and
functions are applied together to as many arguments. -/
structure Nests (Admits : Mode → Prop) (nested nested' : Nested) : Prop where
  dry : Admits .dry
  expression : ∀ {mode scope scope'}, Admits mode → w.Keeps scope scope' →
    w.Together w.Good (nested.expression mode scope) (nested'.expression mode scope')
  apply : ∀ {scope scope' function args args'}, Admits .live → args.length = args'.length →
    w.Together w.Good (Rule.applyFunction nested scope function args)
      (Rule.applyFunction nested' scope' function args')

namespace Nests

variable {w} {Admits : Mode → Prop} {nested nested' : Nested} (h : w.Nests Admits nested nested')
  {mode : Mode} {scope scope' : Scope} (admits : Admits mode) (keeps : w.Keeps scope scope')

include h admits keeps

theorem call (function : String) :
    w.Together w.Good (Rule.call nested mode scope function)
      (Rule.call nested' mode scope' function) := by
  apply Together.bind (.arguments (h.expression admits keeps) function)
  intro args args' same
  cases mode with
  | dry => exact .pure ⟨w.left.null, w.right.null⟩
  | live =>
    apply Together.bind (h.apply admits same)
    intro u v good
    exact .before (.alone .noteStep .noteStep) (.pure good)

theorem unknownCall (function : String) :
    w.Together w.Good (Rule.unknownCall nested mode scope function)
      (Rule.unknownCall nested' mode scope' function) := by
  apply Together.bind (.arguments (h.expression admits keeps) function)
  intro args args' _
  have null : w.Together w.Good (pure .null) (pure .null) := .pure ⟨w.left.null, w.right.null⟩
  apply Together.ite _ null
  apply Together.before (.alone .notice .notice)
  exact .before (.alone .noteStep .noteStep) null

theorem bindings (rounds : Nat) :
    w.Together w.Keeps (Rule.bindings nested mode rounds scope)
      (Rule.bindings nested' mode rounds scope') := by
  induction rounds generalizing scope scope' with
  | zero => exact .throw
  | succ rounds ih =>
    apply Together.after .peek
    intro token
    apply Together.ite (.pure keeps)
    apply Together.after .position
    intro start
    apply Together.after .advance
    intro name
    apply Together.after (.accept _)
    intro comma
    refine Together.ite ?_ (.after (.setPosition start) fun _ => .pure keeps)
    apply Together.bind (h.expression admits keeps)
    intro u v good
    have more : w.Keeps ((name.text, u) :: scope) ((name.text, v) :: scope') := keeps.cons good
    apply Together.after .peek
    intro next
    apply Together.ite (.pure more)
    apply Together.after (.accept _)
    intro comma
    exact .ite (ih more) (.pure more)

theorem letForm :
    w.Together w.Good (Rule.letForm nested mode scope) (Rule.letForm nested' mode scope') := by
  apply Together.after (.expect _ _)
  intro _
  apply Together.after .tokensLeft
  intro rounds
  apply Together.bind (h.bindings admits keeps rounds)
  intro scope scope' keeps
  apply Together.bind (h.expression admits keeps)
  intro u v good
  exact .after (.expect _ _) fun _ => .pure good

omit admits in
theorem lambdaForm :
    w.Together w.Good (Rule.lambdaForm nested scope) (Rule.lambdaForm nested' scope') := by
  apply Together.after (.expect _ _)
  intro _
  apply Together.after (.expect _ _)
  intro parameter
  apply Together.after (.expect _ _)
  intro _
  apply Together.after .position
  intro start
  apply Together.after (.skip (h.expression h.dry keeps))
  intro stop
  apply Together.after (.setPosition stop)
  intro _
  apply Together.after (.expect _ _)
  intro _ s t same
  exact .ok ⟨w.left.lambda _ _, w.right.lambda _ _⟩ same

theorem word (token : Token) :
    w.Together w.Good (Rule.word nested mode scope token)
      (Rule.word nested' mode scope' token) := by
  apply Together.after .advance
  intro _
  apply Together.after .peek
  intro next
  split
  · exact .reference mode token
  · exact h.unknownCall admits keeps token.text
  · exact .alone (.name keeps.1) (.name keeps.2)

theorem function (token : Token) :
    w.Together w.Good (Rule.function nested mode scope token)
      (Rule.function nested' mode scope' token) := by
  apply Together.after .advance
  intro _
  apply Together.ite (h.letForm admits keeps)
  apply Together.ite (h.lambdaForm keeps)
  exact h.call admits keeps token.text

theorem primary :
    w.Together w.Good (Rule.primary nested mode scope) (Rule.primary nested' mode scope') := by
  apply Together.after .peek
  intro token
  split
  · exact .number token
  · exact .after .advance fun _ => .pure ⟨w.left.text _, w.right.text _⟩
  · exact .array (h.expression admits keeps)
  · exact h.word admits keeps token
  · exact h.function admits keeps token
  · exact .parenthesized (h.expression admits keeps)
  · exact .throw
  · exact .throw

theorem postfixed :
    w.Together w.Good (Rule.postfixed (Rule.primary nested mode scope) mode)
      (Rule.postfixed (Rule.primary nested' mode scope') mode) := by
  apply Together.bind (h.primary admits keeps)
  intro u v good
  apply Together.after (.acceptOperator _)
  intro sign
  exact .ite (.alone (.percent good.1) (.percent good.2)) (.pure good)

theorem signed (rounds : Nat) :
    w.Together w.Good (Rule.signed (Rule.primary nested mode scope) mode rounds)
      (Rule.signed (Rule.primary nested' mode scope') mode rounds) := by
  induction rounds with
  | zero => exact .throw
  | succ rounds ih =>
    apply Together.after (.acceptOperator _)
    intro sign
    refine Together.ite ?_ (h.postfixed admits keeps)
    apply Together.bind ih
    intro u v good
    apply Together.before (.alone .noteStep .noteStep)
    exact .pure ⟨w.left.negate good.1, w.right.negate good.2⟩

theorem unary :
    w.Together w.Good (Rule.unary nested mode scope) (Rule.unary nested' mode scope') :=
  .after .tokensLeft fun rounds => h.signed admits keeps rounds

theorem additive :
    w.Together w.Good (Rule.additive nested mode scope) (Rule.additive nested' mode scope') :=
  .level (.level (h.unary admits keeps) _ _) _ _

theorem compared :
    w.Together w.Good (Rule.compared nested mode scope) (Rule.compared nested' mode scope') := by
  apply Together.bind (h.additive admits keeps)
  intro a b left
  apply Together.after (.operator? _)
  intro op
  cases op with
  | none => exact .pure left
  | some op =>
    apply Together.after .advance
    intro _
    apply Together.bind (h.additive admits keeps)
    intro a' b' right
    exact .alone (.compare left.1 right.1) (.compare left.2 right.2)

end Nests

/-! ### Dry readings -/

/-- The limits stop both readings at once, or are excused. -/
def Levels (depth depth' : Nat) : Prop :=
  depth = depth' ∧ w.right.context.maxDepth = w.left.context.maxDepth ∨
    (∀ limit, w.left.Excuses (.tooDeep limit)) ∧ ∀ limit, w.right.Excuses (.tooDeep limit)

variable {w}

theorem Levels.pred {depth depth' : Nat} (levels : w.Levels (depth + 1) (depth' + 1)) :
    w.Levels depth depth' := by
  rcases levels with ⟨same, limit⟩ | excused
  · exact .inl ⟨Nat.succ.inj same, limit⟩
  · exact .inr excused

/-- A reading that is stopped by its limit. -/
theorem Together.tooDeep {depth : Nat} (levels : w.Levels 0 depth) {mode : Mode}
    {scope : Scope} :
    w.Together w.Good Formula.tooDeep (Formula.expression depth mode scope) := by
  intro s t same
  rcases levels with ⟨rfl, limit⟩ | ⟨excused, -⟩
  · change w.Ends w.Good (.error (.tooDeep w.left.context.maxDepth) s)
      (.error (.tooDeep w.right.context.maxDepth) t)
    rw [limit]
    exact .fault
  · exact .left (excused _)

/-- Dry readings end together. -/
theorem Together.dry {depth depth' : Nat} (levels : w.Levels depth depth') {scope scope' : Scope}
    (keeps : w.Keeps scope scope') :
    w.Together w.Good (expression depth .dry scope) (expression depth' .dry scope') := by
  induction depth generalizing depth' scope scope' with
  | zero => exact .tooDeep levels
  | succ depth ih =>
    cases depth' with
    | zero =>
      intro s t same
      rcases levels with ⟨same, -⟩ | ⟨-, excused⟩
      · cases same
      · exact .right (excused _)
    | succ depth' =>
      let nested (n : Nat) : Nested :=
        { expression := expression n, body := expression (n - 1) .live }
      have nests : w.Nests (· = .dry) (nested depth) (nested depth') := {
        dry := rfl
        expression := by
          rintro _ _ _ rfl keeps
          exact ih levels.pred keeps
        -- A dry reading applies no function.
        apply := by
          intro _ _ _ _ _ live _
          cases live }
      rw [expression_succ, expression_succ]
      exact nests.compared rfl keeps

end Pair

end Quarterly.Formula
