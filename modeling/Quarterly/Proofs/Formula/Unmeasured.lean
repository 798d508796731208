import Quarterly.Proofs.Formula.Cursor
import Quarterly.Proofs.Formula.Nesting

/-!
# Recursion without a measure

Evaluation is defined by recursion on the levels that are left, and its repetitions have as many
rounds as there are tokens left. Here the rules call each other as they please: depth counts up, and
nothing but the guard in front of every expression stops them, however lambdas call themselves. The
recursion has a result all the same, and it is the result of the evaluation. No more expressions
than the limit allows are ever being read at one moment, the expressions around a skipped body and
around the body of a called lambda included.
-/

namespace Quarterly.Formula

namespace Unmeasured

/-- A state, and how many expressions at most were being read at one moment so far. -/
structure Watched where
  state : State
  deepest : Nat

/-- A computation that need not end. -/
abbrev Run := ReaderT Context (ExceptT Fault (StateT Watched Option))

/-- How a computation ends that does end. -/
def ended {α : Type} (deepest : Nat) : EStateM.Result Fault State α → Except Fault α × Watched
  | .ok a s => (.ok a, ⟨s, deepest⟩)
  | .error fault s => (.error fault, ⟨s, deepest⟩)

/-- A computation that ends is one that need not. -/
def Run.of {α : Type} (m : Eval α) : Run α := fun c w => some (ended w.deepest (m c w.state))

/-- How deep a reading is: so many expressions are being read around it, and so many levels count as
entered. -/
structure Depth where
  frames : Nat
  levels : Nat

namespace Depth

/-- Inside one more expression. -/
def inner (depth : Depth) : Depth := ⟨depth.frames + 1, depth.levels + 1⟩

/-- A call of a lambda counts as a level, too. -/
def called (depth : Depth) : Depth := { depth with levels := depth.levels + 1 }

@[simp] theorem inner_levels (depth : Depth) : depth.inner.levels = depth.levels + 1 := rfl

@[simp] theorem called_levels (depth : Depth) : depth.called.levels = depth.levels + 1 := rfl

end Depth

/-- So many expressions are being read. -/
def reading (frames : Nat) : Run Unit :=
  modify fun w => { w with deepest := max w.deepest frames }

instance : MonadLift Eval Run := ⟨Run.of⟩

/-- The end of a dry reading as the end of a skipped body. -/
def skipped (before : State) : Except Fault Value × Watched → Except Fault Nat × Watched
  | (.ok _, ⟨s, deepest⟩) =>
    (.ok s.position, ⟨{ s with position := before.position
                               nextIdentity := before.nextIdentity }, deepest⟩)
  | (.error fault, ⟨s, deepest⟩) =>
    (.error fault, ⟨{ s with position := before.position }, deepest⟩)

/-- The end of the reading of a body as the end of a call. -/
def returned (before : State) : Except Fault Value × Watched → Except Fault (Value × Nat) × Watched
  | (.ok v, ⟨s, deepest⟩) =>
    (.ok (v, s.position), ⟨{ s with position := before.position }, deepest⟩)
  | (.error fault, ⟨s, deepest⟩) =>
    (.error fault, ⟨{ s with position := before.position }, deepest⟩)

/-! ### The rules -/

mutual

/-- Read an expression. -/
def Depth.expression (depth : Depth) (mode : Mode) (scope : Scope) : Run Value := do
  let limit := (← read).maxDepth
  if limit < depth.inner.levels then throw (.tooDeep limit)
  else do
    reading depth.inner.frames
    depth.inner |>.compared mode scope
partial_fixpoint

def Depth.compared (depth : Depth) (mode : Mode) (scope : Scope) : Run Value := do
  let left ← depth |>.level mode scope .sum
  match ← Eval.operator? ComparisonOp.ofSymbol? with
  | none => return left
  | some op => do
    let _ ← Eval.advance
    let right ← depth |>.level mode scope .sum
    let result ← Eval.orNumericFault (comparison op left right)
    Eval.noteStep mode (.comparison op left right result)
    return .bool result
partial_fixpoint

def Depth.level (depth : Depth) (mode : Mode) (scope : Scope) (rank : Rank) : Run Value := do
  let left ← depth |>.operand mode scope rank
  depth |>.chain mode scope rank left
partial_fixpoint

def Depth.operand (depth : Depth) (mode : Mode) (scope : Scope) (rank : Rank) : Run Value :=
  match rank with
  | .sum => depth |>.level mode scope .product
  | .product => depth |>.unary mode scope
partial_fixpoint

def Depth.chain (depth : Depth) (mode : Mode) (scope : Scope) (rank : Rank) (left : Value) :
    Run Value := do
  match ← Eval.operator? rank.op? with
  | none => return left
  | some op => do
    let _ ← Eval.advance
    let right ← depth |>.operand mode scope rank
    let value ← Rule.combine mode op left right
    depth |>.chain mode scope rank value
partial_fixpoint

def Depth.unary (depth : Depth) (mode : Mode) (scope : Scope) : Run Value := do
  if ← Eval.acceptOperator "-" then
    let value ← depth |>.unary mode scope
    let result := negate value
    Eval.noteStep mode (.negation value result)
    return result
  else depth |>.postfixed mode scope
partial_fixpoint

def Depth.postfixed (depth : Depth) (mode : Mode) (scope : Scope) : Run Value := do
  let value ← depth |>.primary mode scope
  if ← Eval.acceptOperator "%" then
    match value with
    | .number n => do
      let result ← Eval.orNumericFault (percent n)
      Eval.noteStep mode (.percent value result)
      return result
    | _ => return value
  else return value
partial_fixpoint

def Depth.primary (depth : Depth) (mode : Mode) (scope : Scope) : Run Value := do
  let token ← Eval.peek
  match token.kind with
  | .number => Rule.number token
  | .string => do
    let _ ← Eval.advance
    return .text token.text
  | .leftBrace => do
    let _ ← Eval.advance
    let values ← depth |>.items mode scope .rightBrace .noClosingBrace
    Eval.newArray values
  | .identifier => depth |>.word mode scope token
  | .function => depth |>.function mode scope token
  | .leftParen => do
    let _ ← Eval.advance
    let value ← depth |>.expression mode scope
    let _ ← Eval.expect .rightParen .noClosingParenthesis
    return value
  | .endMark => throw (.malformed .endOfFormula token.position)
  | _ => throw (.malformed (.unexpected token.text) token.position)
partial_fixpoint

def Depth.items (depth : Depth) (mode : Mode) (scope : Scope) (closing : TokenKind)
    (problem : SyntaxFault) : Run (List Value) := do
  let values ←
    if (← Eval.peek).kind = closing then pure #[]
    else do
      let first ← depth |>.expression mode scope
      depth |>.moreItems mode scope #[first]
  let _ ← Eval.expect closing problem
  return values.toList
partial_fixpoint

def Depth.moreItems (depth : Depth) (mode : Mode) (scope : Scope) (values : Array Value) :
    Run (Array Value) := do
  if ← Eval.accept .comma then
    let value ← depth |>.expression mode scope
    depth |>.moreItems mode scope (values.push value)
  else return values
partial_fixpoint

def Depth.arguments (depth : Depth) (mode : Mode) (scope : Scope) (function : String) :
    Run (List Value) := do
  let _ ← Eval.expect .leftParen (.noArguments function)
  depth |>.items mode scope .rightParen .argumentsNotClosed
partial_fixpoint

def Depth.word (depth : Depth) (mode : Mode) (scope : Scope) (token : Token) : Run Value := do
  let _ ← Eval.advance
  match (← Eval.peek).kind with
  | .leftBracket => Rule.reference mode token
  | .leftParen => depth |>.unknownCall mode scope token.text
  | _ => Rule.name mode scope token.text
partial_fixpoint

def Depth.unknownCall (depth : Depth) (mode : Mode) (scope : Scope) (function : String) :
    Run Value := do
  let args ← depth |>.arguments mode scope function
  if mode = .live then
    Eval.notice (.unknownFunction function)
    Eval.noteStep mode (.unknownCall function args)
  return .null
partial_fixpoint

def Depth.function (depth : Depth) (mode : Mode) (scope : Scope) (token : Token) : Run Value := do
  let _ ← Eval.advance
  if token.text = letName then depth |>.letForm mode scope
  else if token.text = lambdaName then depth |>.lambdaForm scope
  else depth |>.call mode scope token.text
partial_fixpoint

def Depth.call (depth : Depth) (mode : Mode) (scope : Scope) (function : String) : Run Value := do
  let args ← depth |>.arguments mode scope function
  if mode = .dry then return .null
  let result ← depth |>.applyFunction scope function args
  Eval.noteStep mode (.call function args result)
  return result
partial_fixpoint

def Depth.letForm (depth : Depth) (mode : Mode) (scope : Scope) : Run Value := do
  let _ ← Eval.expect .leftParen .noLetArguments
  let scope ← depth |>.bindings mode scope
  let body ← depth |>.expression mode scope
  let _ ← Eval.expect .rightParen .letNotClosed
  return body
partial_fixpoint

def Depth.bindings (depth : Depth) (mode : Mode) (scope : Scope) : Run Scope := do
  if (← Eval.peek).kind ≠ .identifier then return scope
  let start ← Eval.position
  let name := (← Eval.advance).text
  if ← Eval.accept .comma then
    let value ← depth |>.expression mode scope
    let scope := (name, value) :: scope
    if (← Eval.peek).kind = .rightParen then return scope
    else if ← Eval.accept .comma then depth |>.bindings mode scope
    else return scope
  else
    Eval.setPosition start
    return scope
partial_fixpoint

def Depth.lambdaForm (depth : Depth) (scope : Scope) : Run Value := do
  let _ ← Eval.expect .leftParen .noLambdaArguments
  let parameter ← Eval.expect .identifier .noLambdaParameter
  let _ ← Eval.expect .comma .noLambdaComma
  let start ← Eval.position
  let stop ← depth |>.skip scope
  Eval.setPosition stop
  let _ ← Eval.expect .rightParen .lambdaNotClosed
  return .lambda (← Eval.newIdentity) ⟨parameter.text, start, stop⟩
partial_fixpoint

/-- The dry reading of a body counts from where the expression around it stands. -/
def Depth.skip (depth : Depth) (scope : Scope) : Run Nat := fun c w =>
  (depth |>.expression .dry scope c w) >>= fun finish => some (skipped w.state finish)
partial_fixpoint

def Depth.applyFunction (depth : Depth) (scope : Scope) (function : String) (args : List Value) :
    Run Value := do
  if function = mapName then
    let (items, f) ← Eval.orFault (Library.mapArguments args)
    let values ← items.mapM fun item => depth |>.callLambda scope f item
    Eval.newArray values
  else match Builtin.ofName? function with
    | some builtin => do
      let answer ← Eval.orFault (builtin.apply args)
      Eval.ofAnswer answer
    | none => throw (.notInLibrary function)
partial_fixpoint

def Depth.callLambda (depth : Depth) (scope : Scope) (f : Lambda) (argument : Value) :
    Run Value := do
  let (value, stop) ← depth |>.body ((f.parameter, argument) :: scope) f.start
  if stop ≠ f.stop then throw (.malformed .lambdaEndsElsewhere (← Eval.tokenAt stop).position)
  return value
partial_fixpoint

/-- The reading of the body of a called lambda counts one level more. -/
def Depth.body (depth : Depth) (scope : Scope) (start : Nat) : Run (Value × Nat) := fun c w =>
  (depth.called |>.expression .live scope c ⟨{ w.state with position := start }, w.deepest⟩) >>=
    fun finish => some (returned w.state finish)
partial_fixpoint

end

/-- Read all tokens as one expression. -/
def readAll (mode : Mode) (scope : Scope) : Run Value := do
  let value ← Depth.expression ⟨0, 0⟩ mode scope
  let token ← Eval.peek
  if token.kind ≠ .endMark then throw (.malformed (.unexpected token.text) token.position)
  return value

/-- Evaluate from the start, and tell how many expressions at most were being read at one moment.
There is no result if the evaluation does not end. -/
def evaluate (c : Context) (mode : Mode) (scope : Scope) : Option (Evaluation × Nat) := do
  let (outcome, w) ← readAll mode scope c ⟨.start scope, 0⟩
  return (⟨outcome, w.state.position, w.state.journal⟩, w.deepest)

/-! ### Following an evaluation -/

section

variable {c : Context} {α β : Type} {p : Nat}

/-- Steps of an evaluation, with what is known of the tokens they end at. -/
def steps {tokens : Array Token} : ReadingLogic tokens fun _ => True :=
  Runs.logic _ (fun _ => True) (fun _ _ => trivial) (fun _ => trivial) fun _ _ _ => trivial

/-- From a token on, a computation that need not end ends as another one does, and never are more
expressions being read than the limit allows. -/
def Follows (c : Context) (p : Nat) (Q : α → Nat → Prop) (m : Run α) (n : Eval α) : Prop :=
  ∀ w : Watched, w.state.position = p → w.deepest ≤ c.maxDepth.toNat →
    (∃ deepest ≤ c.maxDepth.toNat, m c w = some (ended deepest (n c w.state))) ∧
      ∀ a s, n c w.state = .ok a s → Q a s.position

theorem run_bind (m : Run α) (f : α → Run β) (w : Watched) :
    (m >>= f) c w = m c w >>= fun
      | (.ok a, w') => f a c w'
      | (.error fault, w') => some (.error fault, w') := by
  refine congrArg (m c w >>= ·) ?_
  funext finish
  obtain ⟨result, w'⟩ := finish
  cases result <;> rfl

theorem of_bind (n : Eval α) (g : α → Eval β) :
    Run.of (n >>= g) = Run.of n >>= fun a => Run.of (g a) := by
  funext c w
  change some (ended w.deepest ((n >>= g) c w.state)) = _
  rw [run_bind, Formula.run_bind]
  change _ = some (ended w.deepest (n c w.state)) >>= _
  cases n c w.state <;> rfl

namespace Follows

theorem of {Q : α → Nat → Prop} {n : Eval α} (h : (@steps c.tokens).Holds p Q n) :
    Follows c p Q (Run.of n) n := by
  have runs : Runs c.tokens (fun _ => True) p Q n := h
  intro w hp bound
  refine ⟨⟨w.deepest, bound, rfl⟩, ?_⟩
  intro a s hr
  have run := runs c w.state rfl hp
  rw [hr] at run
  exact run

theorem pure {Q : α → Nat → Prop} {a : α} (h : Q a p) :
    Follows c p Q (pure a : Run α) (pure a) := by
  intro w hp bound
  refine ⟨⟨w.deepest, bound, rfl⟩, ?_⟩
  intro b s hr
  cases hr
  exact hp ▸ h

theorem throw {Q : α → Nat → Prop} {fault : Fault} :
    Follows c p Q (throw fault : Run α) (throw fault) := by
  intro w hp bound
  refine ⟨⟨w.deepest, bound, rfl⟩, ?_⟩
  intro b s hr
  cases hr

theorem bind {R : α → Nat → Prop} {Q : β → Nat → Prop} {m : Run α} {n : Eval α}
    {f : α → Run β} {g : α → Eval β} (hm : Follows c p R m n)
    (hf : ∀ a q, R a q → Follows c q Q (f a) (g a)) : Follows c p Q (m >>= f) (n >>= g) := by
  intro w hp bound
  obtain ⟨⟨deepest, bound', hr⟩, ends⟩ := hm w hp bound
  rw [run_bind, hr, Formula.run_bind]
  cases h : n c w.state with
  | ok a s => exact hf a s.position (ends a s h) ⟨s, deepest⟩ rfl bound'
  | error fault s =>
    refine ⟨⟨deepest, bound', rfl⟩, ?_⟩
    intro a s' hr
    cases hr

/-- One step that both take. -/
theorem step {R : α → Nat → Prop} {Q : β → Nat → Prop} {n : Eval α} {f : α → Run β}
    {g : α → Eval β} (h : (@steps c.tokens).Holds p R n)
    (hf : ∀ a q, R a q → Follows c q Q (f a) (g a)) :
    Follows c p Q (Run.of n >>= f) (n >>= g) :=
  bind (.of h) hf

/-- Weaken what is known of the result. -/
theorem mono {R Q : α → Nat → Prop} {m : Run α} {n : Eval α} (h : Follows c p R m n)
    (imp : ∀ a q, R a q → Q a q) : Follows c p Q m n := by
  intro w hp bound
  obtain ⟨finish, ends⟩ := h w hp bound
  refine ⟨finish, ?_⟩
  intro a s hr
  exact imp a _ (ends a s hr)

theorem ite {Q : α → Nat → Prop} {b : Prop} [Decidable b] {m m' : Run α} {n n' : Eval α}
    (yes : b → Follows c p Q m n) (no : ¬ b → Follows c p Q m' n') :
    Follows c p Q (if b then m else m') (if b then n else n') := by
  split
  · exact yes ‹_›
  · exact no ‹_›

/-- A repetition that has as many rounds as there are tokens left. -/
theorem counted {Q : α → Nat → Prop} {m : Run α} {n : Nat → Eval α}
    (h : ∀ rounds, c.tokens.size ≤ p + rounds → Follows c p Q m (n rounds)) :
    Follows c p Q m (Eval.tokensLeft >>= n) := by
  rintro w rfl bound
  have enough : c.tokens.size ≤ w.state.position + (c.tokens.size - w.state.position) := by omega
  exact h _ enough w rfl bound

/-- Where no token is left, looking at one faults just as a repetition without rounds does. -/
theorem exhausted {Q : β → Nat → Prop} (past : c.tokens.size ≤ p) {f : Token → Run β} :
    Follows c p Q (Run.of Eval.peek >>= f) (MonadExcept.throw Fault.pastLastToken) := by
  intro w hp bound
  have none : c.tokens[w.state.position]? = .none := by
    rw [hp]
    exact Array.getElem?_eq_none past
  have looked : Eval.peek c w.state = .error .pastLastToken w.state := by
    change Eval.tokenAt w.state.position c w.state = _
    rw [run_tokenAt, none]
  have stopped : Run.of Eval.peek c w = some (.error .pastLastToken, w) := by
    change some (ended w.deepest (Eval.peek c w.state)) = _
    rw [looked]
    rfl
  refine ⟨⟨w.deepest, bound, ?_⟩, ?_⟩
  · rw [run_bind, stopped]
    rfl
  · intro a s hr
    cases hr

theorem exhausted_bind {Q : β → Nat → Prop} (past : c.tokens.size ≤ p) {n : Token → Eval α}
    {f : α → Run β} :
    Follows c p Q (Run.of (Eval.peek >>= n) >>= f) (MonadExcept.throw Fault.pastLastToken) := by
  rw [of_bind, bind_assoc]
  exact .exhausted past

end Follows

end

/-! ### The rules -/

section

variable {c : Context} {p : Nat}

theorem everyLambda (v : Value) : v.EveryLambda fun _ => True := .of_forall (fun _ => trivial) v

theorem noteStep {mode : Mode} {step : Step} :
    Follows c p (fun _ q => q = p) (Run.of (Eval.noteStep mode step))
      (Eval.noteStep mode step) := by
  apply Follows.of
  change Runs c.tokens (fun _ => True) p (fun _ q => q = p) (Eval.noteStep mode step)
  rintro c s _ rfl
  rw [run_noteStep]

theorem orNumericFault {α : Type} {x : Except NumericFault α} :
    Follows c p (fun _ q => q = p) (Run.of (Eval.orNumericFault x)) (Eval.orNumericFault x) :=
  .of (steps.mono steps.orNumericFault fun _ _ h => h.2)

theorem orFault {α : Type} {x : Except Fault α} :
    Follows c p (fun _ q => q = p) (Run.of (Eval.orFault x)) (Eval.orFault x) := by
  cases x with
  | ok a => exact .of (steps.pure rfl)
  | error fault => exact Follows.throw

theorem newArray {items : List Value} :
    Follows c p (fun _ q => q = p) (Run.of (Eval.newArray items)) (Eval.newArray items) :=
  .of (steps.mono (steps.newArray fun v _ => everyLambda v) fun _ _ h => h.2.2)

theorem ofAnswer {answer : Answer} :
    Follows c p (fun _ q => q = p) (Run.of (Eval.ofAnswer answer)) (Eval.ofAnswer answer) := by
  cases answer with
  | value v => exact .of (steps.pure rfl)
  | newArray items => exact newArray

theorem combine {mode : Mode} {op : ArithmeticOp} {a b : Value} :
    Follows c p (fun _ q => q = p) (Run.of (Rule.combine mode op a b)) (Rule.combine mode op a b) :=
  .of (steps.mono (steps.combine trivial) fun _ _ h => h.2)

/-- What the rules of an expression may rely on. -/
structure Nests (c : Context) (depth : Depth) (nested : Nested) : Prop where
  expression : ∀ {p mode scope}, Follows c p (fun _ q => p ≤ q)
    (depth.expression mode scope) (nested.expression mode scope)
  body : ∀ {p scope start}, Follows c p (fun _ q => q = p) (depth.body scope start)
    (Eval.elsewhere start (nested.body scope))

variable {depth : Depth} {nested : Nested} (nests : Nests c depth nested)
  {mode : Mode} {scope : Scope}

/-! #### Lists of expressions -/

section

include nests

theorem moreItems_follows (rounds : Nat) (enough : c.tokens.size ≤ p + rounds)
    (values : Array Value) :
    Follows c p (fun _ q => p ≤ q) (depth.moreItems mode scope values)
      (Rule.moreItems (nested.expression mode scope) rounds values) := by
  -- Every further round starts behind a comma, so rounds run out only where tokens do.
  induction rounds generalizing p values with
  | zero =>
    rw [Depth.moreItems]
    exact .exhausted_bind enough
  | succ rounds ih =>
    rw [Depth.moreItems]
    apply Follows.step (steps.accept (by decide))
    rintro _ _ (⟨rfl, _, rfl⟩ | ⟨rfl, _, rfl⟩)
    · apply Follows.bind nests.expression
      intro value q hq
      have advanced : c.tokens.size ≤ q + rounds := by omega
      exact (ih advanced (values.push value)).mono fun _ _ h => by omega
    · exact .pure (Nat.le_refl _)

theorem items_follows {closing : TokenKind} {problem : SyntaxFault} (notEnd : closing ≠ .endMark)
    (ordinary : problem ≠ .lambdaEndsElsewhere) :
    Follows c p (fun _ q => p ≤ q) (depth.items mode scope closing problem)
      (Rule.items (nested.expression mode scope) closing problem) := by
  rw [Depth.items]
  apply Follows.step steps.peek
  rintro token p ⟨_, rfl⟩
  -- Whether there are items or not, the closing token comes next.
  have close (values : Array Value) {p q : Nat} (hq : p ≤ q) :
      Follows c q (fun _ r => p ≤ r)
        (do
          let _ ← Eval.expect closing problem
          return values.toList)
        (do
          let _ ← Eval.expect closing problem
          return values.toList) := by
    apply Follows.step (steps.expect notEnd ordinary)
    rintro _ _ ⟨_, rfl⟩
    exact .pure (by omega)
  apply Follows.ite
  · intro _
    apply Follows.bind (.pure (Q := fun _ q => q = p) rfl)
    rintro values _ rfl
    exact close values (Nat.le_refl _)
  · intro _
    apply Follows.bind nests.expression
    intro first q hq
    apply Follows.counted
    intro rounds enough
    apply Follows.bind (moreItems_follows nests rounds enough #[first])
    intro values r hr
    exact close values (by omega)

theorem arguments_follows {name : String} :
    Follows c p (fun _ q => p ≤ q) (depth.arguments mode scope name)
      (Rule.arguments (nested.expression mode scope) name) := by
  rw [Depth.arguments]
  apply Follows.step (steps.expect (by decide) (by simp))
  rintro _ _ ⟨_, rfl⟩
  exact (items_follows nests (by decide) (by decide)).mono fun _ _ h => by omega

/-! #### Calls -/

theorem callLambda_follows {f : Lambda} {argument : Value} :
    Follows c p (fun _ q => q = p) (depth.callLambda scope f argument)
      (Rule.callLambda nested scope f argument) := by
  rw [Depth.callLambda]
  apply Follows.bind nests.body
  rintro ⟨value, stop⟩ p rfl
  apply Follows.ite
  · intro _
    apply Follows.step (steps.tokenAt (Q := fun _ q => q = p) fun _ _ => rfl)
    intro token q _
    exact .throw
  · intro _
    exact .pure rfl

theorem mapLambda_follows {f : Lambda} (values : List Value) :
    Follows c p (fun _ q => q = p) (values.mapM fun v => depth.callLambda scope f v)
      (values.mapM (Rule.callLambda nested scope f)) := by
  induction values with
  | nil => exact .pure rfl
  | cons v rest ih =>
    rw [List.mapM_cons, List.mapM_cons]
    apply Follows.bind (callLambda_follows nests)
    rintro u _ rfl
    apply Follows.bind ih
    rintro us _ rfl
    exact .pure rfl

theorem applyFunction_follows {name : String} {args : List Value} :
    Follows c p (fun _ q => q = p) (depth.applyFunction scope name args)
      (Rule.applyFunction nested scope name args) := by
  rw [Depth.applyFunction]
  apply Follows.ite
  · intro _
    apply Follows.bind orFault
    rintro ⟨values, f⟩ _ rfl
    apply Follows.bind (mapLambda_follows nests values)
    rintro results _ rfl
    exact newArray
  · intro _
    cases Builtin.ofName? name with
    | none => exact .throw
    | some builtin =>
      apply Follows.bind orFault
      rintro answer _ rfl
      exact ofAnswer

theorem call_follows {name : String} :
    Follows c p (fun _ q => p ≤ q) (depth.call mode scope name)
      (Rule.call nested mode scope name) := by
  rw [Depth.call]
  apply Follows.bind (arguments_follows nests)
  intro args q hq
  apply Follows.ite
  · intro _
    exact .pure hq
  · intro _
    apply Follows.bind (applyFunction_follows nests)
    rintro result _ rfl
    apply Follows.bind noteStep
    rintro _ _ rfl
    exact .pure hq

theorem unknownCall_follows {name : String} :
    Follows c p (fun _ q => p ≤ q) (depth.unknownCall mode scope name)
      (Rule.unknownCall nested mode scope name) := by
  rw [Depth.unknownCall]
  apply Follows.bind (arguments_follows nests)
  intro args q hq
  apply Follows.ite
  · intro _
    apply Follows.step (steps.noticeUnknown trivial (Q := fun _ r => r = q) rfl)
    rintro _ _ rfl
    apply Follows.bind noteStep
    rintro _ _ rfl
    exact .pure hq
  · intro _
    exact .pure hq

/-! #### Forms that bind names -/

theorem bindings_follows (rounds : Nat) (enough : c.tokens.size ≤ p + rounds) (scope : Scope) :
    Follows c p (fun _ q => p ≤ q) (depth.bindings mode scope)
      (Rule.bindings nested mode rounds scope) := by
  induction rounds generalizing p scope with
  | zero =>
    rw [Depth.bindings]
    exact .exhausted enough
  | succ rounds ih =>
    rw [Depth.bindings]
    apply Follows.step steps.peek
    rintro token p ⟨found, rfl⟩
    apply Follows.ite
    · intro _
      exact .pure (Nat.le_refl p)
    · intro named
      have kind : kindAt c.tokens p = some .identifier := by simpa [kindAt, found] using named
      apply Follows.step (steps.position (Q := fun i q => i = p ∧ q = p) ⟨rfl, rfl⟩)
      rintro _ p ⟨rfl, rfl⟩
      apply Follows.step (steps.advance kind (by decide))
      rintro name _ ⟨_, rfl⟩
      apply Follows.step (steps.accept (by decide))
      rintro _ _ (⟨rfl, _, rfl⟩ | ⟨rfl, _, rfl⟩)
      · apply Follows.bind nests.expression
        intro value q hq
        apply Follows.step steps.peek
        rintro next q ⟨_, rfl⟩
        apply Follows.ite
        · intro _
          exact .pure (by omega)
        · intro _
          apply Follows.step (steps.accept (by decide))
          rintro _ _ (⟨rfl, _, rfl⟩ | ⟨rfl, _, rfl⟩)
          · have advanced : c.tokens.size ≤ q + 1 + rounds := by omega
            exact (ih advanced _).mono fun _ _ h => by omega
          · exact .pure (by omega)
      · apply Follows.step (steps.setPosition (Q := fun _ q => q = p) rfl)
        rintro _ _ rfl
        exact .pure (Nat.le_refl _)

theorem letForm_follows :
    Follows c p (fun _ q => p ≤ q) (depth.letForm mode scope)
      (Rule.letForm nested mode scope) := by
  rw [Depth.letForm]
  apply Follows.step (steps.expect (by decide) (by decide))
  rintro _ _ ⟨_, rfl⟩
  apply Follows.counted
  intro rounds enough
  apply Follows.bind (bindings_follows nests rounds enough scope)
  intro scope q hq
  apply Follows.bind nests.expression
  intro value r hr
  apply Follows.step (steps.expect (by decide) (by decide))
  rintro _ _ ⟨_, rfl⟩
  exact .pure (by omega)

theorem skip_follows :
    Follows c p (fun stop q => p ≤ stop ∧ q = p) (depth.skip scope)
      (Rule.skip nested scope) := by
  intro w hp bound
  have inner : Follows c p (fun _ q => p ≤ q) (depth.expression .dry scope)
      (nested.expression .dry scope) := nests.expression
  obtain ⟨⟨deepest, bound', hr⟩, ends⟩ := inner w hp bound
  rw [Depth.skip, run_skip, hr]
  cases h : nested.expression .dry scope c w.state with
  | ok v s =>
    refine ⟨⟨deepest, bound', rfl⟩, ?_⟩
    intro stop s' hs
    cases hs
    exact ⟨ends v s h, hp⟩
  | error fault s =>
    refine ⟨⟨deepest, bound', rfl⟩, ?_⟩
    intro stop s' hs
    cases hs

theorem lambdaForm_follows :
    Follows c p (fun _ q => p ≤ q) (depth.lambdaForm scope)
      (Rule.lambdaForm nested scope) := by
  rw [Depth.lambdaForm]
  apply Follows.step (steps.expect (by decide) (by decide))
  rintro _ _ ⟨_, rfl⟩
  apply Follows.step (steps.expect (by decide) (by decide))
  rintro parameter _ ⟨_, rfl⟩
  apply Follows.step (steps.expect (by decide) (by decide))
  rintro _ _ ⟨_, rfl⟩
  apply Follows.step (steps.position (Q := fun _ q => q = p + 1 + 1 + 1) rfl)
  rintro start _ rfl
  apply Follows.bind (skip_follows nests)
  rintro stop _ ⟨hstop, rfl⟩
  apply Follows.step (steps.setPosition (Q := fun _ q => q = stop) rfl)
  rintro _ stop rfl
  apply Follows.step (steps.expect (by decide) (by decide))
  rintro _ _ ⟨_, rfl⟩
  apply Follows.step (steps.newIdentity (Q := fun _ q => q = stop + 1) fun _ => rfl)
  rintro identity _ rfl
  exact .pure (by omega)

/-! #### Operands -/

theorem word_follows {token : Token} (kind : kindAt c.tokens p = some .identifier) :
    Follows c p (fun _ q => p ≤ q) (depth.word mode scope token)
      (Rule.word nested mode scope token) := by
  rw [Depth.word]
  apply Follows.step (steps.advance kind (by decide))
  rintro _ _ ⟨_, rfl⟩
  apply Follows.step steps.peek
  rintro next _ ⟨found, rfl⟩
  obtain ⟨nextKind, text, position⟩ := next
  cases nextKind with
  | leftBracket =>
    have opening : kindAt c.tokens (p + 1) = some .leftBracket := by simp [kindAt, found]
    exact .of (steps.reference trivial kind opening fun _ hr _ => hr.le)
  | leftParen => exact (unknownCall_follows nests).mono fun _ _ h => by omega
  | _ =>
    have keeps : Keeps (fun _ => True) scope := fun _ _ => everyLambda _
    exact .of (steps.name trivial keeps fun _ _ => Nat.le_succ p)

theorem function_follows {token : Token} (kind : kindAt c.tokens p = some .function) :
    Follows c p (fun _ q => p ≤ q) (depth.function mode scope token)
      (Rule.function nested mode scope token) := by
  rw [Depth.function]
  apply Follows.step (steps.advance kind (by decide))
  rintro _ _ ⟨_, rfl⟩
  apply Follows.ite
  · intro _
    exact (letForm_follows nests).mono fun _ _ h => by omega
  · intro _
    apply Follows.ite
    · intro _
      exact (lambdaForm_follows nests).mono fun _ _ h => by omega
    · intro _
      exact (call_follows nests).mono fun _ _ h => by omega

theorem primary_follows :
    Follows c p (fun _ q => p ≤ q) (depth.primary mode scope)
      (Rule.primary nested mode scope) := by
  rw [Depth.primary]
  apply Follows.step steps.peek
  rintro token p ⟨found, rfl⟩
  obtain ⟨kind, text, position⟩ := token
  have here : kindAt c.tokens p = some kind := by simp [kindAt, found]
  cases kind with
  | number =>
    have read : steps.Holds p (steps.Yields .primary p)
        (Rule.number ⟨.number, text, position⟩) := steps.number here
    exact .of (steps.mono read fun _ _ h => h.1.le)
  | string =>
    apply Follows.step (steps.advance here (by decide))
    rintro _ _ ⟨_, rfl⟩
    exact .pure (Nat.le_succ p)
  | leftBrace =>
    apply Follows.step (steps.advance here (by decide))
    rintro _ _ ⟨_, rfl⟩
    apply Follows.bind (items_follows nests (by decide) (by decide))
    intro values q hq
    exact newArray.mono fun _ _ h => by omega
  | identifier => exact word_follows nests here
  | function => exact function_follows nests here
  | leftParen =>
    apply Follows.step (steps.advance here (by decide))
    rintro _ _ ⟨_, rfl⟩
    apply Follows.bind nests.expression
    intro value q hq
    apply Follows.step (steps.expect (by decide) (by decide))
    rintro _ _ ⟨_, rfl⟩
    exact .pure (by omega)
  | _ => exact .throw

theorem postfixed_follows :
    Follows c p (fun _ q => p ≤ q) (depth.postfixed mode scope)
      (Rule.postfixed (Rule.primary nested mode scope) mode) := by
  rw [Depth.postfixed]
  apply Follows.bind (primary_follows nests)
  intro value q hq
  apply Follows.step steps.acceptOperator
  rintro _ _ (⟨rfl, _, rfl⟩ | ⟨rfl, _, rfl⟩)
  · cases value with
    | number n =>
      apply Follows.bind orNumericFault
      rintro result _ rfl
      apply Follows.bind noteStep
      rintro _ _ rfl
      exact .pure (by omega)
    | _ => exact .pure (by omega)
  · exact .pure hq

theorem signed_follows (rounds : Nat) (enough : c.tokens.size ≤ p + rounds) :
    Follows c p (fun _ q => p ≤ q) (depth.unary mode scope)
      (Rule.signed (Rule.primary nested mode scope) mode rounds) := by
  induction rounds generalizing p with
  | zero =>
    rw [Depth.unary]
    exact .exhausted_bind enough
  | succ rounds ih =>
    rw [Depth.unary]
    apply Follows.step steps.acceptOperator
    rintro _ _ (⟨rfl, _, rfl⟩ | ⟨rfl, _, rfl⟩)
    · have advanced : c.tokens.size ≤ p + 1 + rounds := by omega
      apply Follows.bind (ih advanced)
      intro value q hq
      apply Follows.bind noteStep
      rintro _ _ rfl
      exact .pure (by omega)
    · exact postfixed_follows nests

theorem unary_follows :
    Follows c p (fun _ q => p ≤ q) (depth.unary mode scope)
      (Rule.unary nested mode scope) := by
  apply Follows.counted
  intro rounds enough
  exact signed_follows nests rounds enough

end

/-! #### Operators -/

section

variable {rank : Rank} {n : Eval Value}
  (holds : ∀ {p}, Follows c p (fun _ q => p ≤ q) (depth.operand mode scope rank) n)

include holds

theorem chain_follows (rounds : Nat) (enough : c.tokens.size ≤ p + rounds) (left : Value) :
    Follows c p (fun _ q => p ≤ q) (depth.chain mode scope rank left)
      (Rule.chain n rank.op? mode rounds left) := by
  induction rounds generalizing p left with
  | zero =>
    rw [Depth.chain]
    exact .exhausted_bind enough
  | succ rounds ih =>
    rw [Depth.chain]
    apply Follows.step steps.operator?
    rintro op p ⟨ho, rfl⟩
    cases op with
    | none => exact .pure (Nat.le_refl p)
    | some op =>
      have kind := kindAt_of_bind_operatorAt ho.symm
      apply Follows.step (steps.advance kind (by decide))
      rintro _ _ ⟨_, rfl⟩
      apply Follows.bind holds
      intro right q hq
      apply Follows.bind combine
      rintro value r rfl
      have advanced : c.tokens.size ≤ r + rounds := by omega
      exact (ih advanced value).mono fun _ _ h => by omega

theorem level_follows :
    Follows c p (fun _ q => p ≤ q) (depth.level mode scope rank)
      (Rule.level n rank.op? mode) := by
  rw [Depth.level]
  apply Follows.bind holds
  intro left q hq
  apply Follows.counted
  intro rounds enough
  exact (chain_follows holds rounds enough left).mono fun _ _ h => by omega

end

section

include nests

theorem additive_follows :
    Follows c p (fun _ q => p ≤ q) (depth.level mode scope .sum)
      (Rule.additive nested mode scope) := by
  have factor {p : Nat} : Follows c p (fun _ q => p ≤ q)
      (depth.operand mode scope .product) (Rule.unary nested mode scope) := by
    rw [Depth.operand]
    exact unary_follows nests
  have term {p : Nat} : Follows c p (fun _ q => p ≤ q)
      (depth.operand mode scope .sum) (Rule.multiplicative nested mode scope) := by
    rw [Depth.operand]
    exact level_follows factor
  exact level_follows term

theorem compared_follows :
    Follows c p (fun _ q => p ≤ q) (depth.compared mode scope)
      (Rule.compared nested mode scope) := by
  rw [Depth.compared]
  apply Follows.bind (additive_follows nests)
  intro left q hq
  apply Follows.step steps.operator?
  rintro op q ⟨ho, rfl⟩
  cases op with
  | none => exact .pure hq
  | some op =>
    have kind := kindAt_of_bind_operatorAt ho.symm
    apply Follows.step (steps.advance kind (by decide))
    rintro _ _ ⟨_, rfl⟩
    apply Follows.bind (additive_follows nests)
    intro right r hr
    apply Follows.bind orNumericFault
    rintro result _ rfl
    apply Follows.bind noteStep
    rintro _ _ rfl
    exact .pure (by omega)

end

/-! #### Expressions -/

theorem body_follows {start : Nat}
    (inner : Follows c start (fun _ q => start ≤ q) (depth.called.expression .live scope)
      (nested.body scope)) :
    Follows c p (fun _ q => q = p) (depth.body scope start)
      (Eval.elsewhere start (nested.body scope)) := by
  intro w hp bound
  obtain ⟨⟨deepest, bound', hr⟩, -⟩ :=
    inner ⟨{ w.state with position := start }, w.deepest⟩ rfl bound
  rw [Depth.body, hr]
  unfold Eval.elsewhere
  cases h : nested.body scope c { w.state with position := start } with
  | ok v s =>
    refine ⟨⟨deepest, bound', rfl⟩, ?_⟩
    intro r s' hs
    cases hs
    exact hp
  | error fault s =>
    refine ⟨⟨deepest, bound', rfl⟩, ?_⟩
    intro r s' hs
    cases hs

theorem reading_follows {frames : Nat} (inside : frames ≤ c.maxDepth.toNat)
    {Q : Value → Nat → Prop} {m : Run Value} {n : Eval Value} (h : Follows c p Q m n) :
    Follows c p Q (do reading frames; m) n := by
  intro w hp bound
  have bound' : max w.deepest frames ≤ c.maxDepth.toNat := by omega
  exact h { w with deepest := max w.deepest frames } hp bound'

/-- The guard in front of an expression. -/
theorem run_expression (depth : Depth) (mode : Mode) (scope : Scope) (w : Watched) :
    depth.expression mode scope c w =
      if c.maxDepth < depth.inner.levels then some (.error (.tooDeep c.maxDepth), w)
      else (do reading depth.inner.frames; depth.inner.compared mode scope) c w := by
  rw [Depth.expression]
  change (if c.maxDepth < depth.inner.levels then throw (.tooDeep c.maxDepth)
    else (do reading depth.inner.frames; depth.inner.compared mode scope) : Run Value) c w = _
  split <;> rfl

/-- The levels that are left are those of the limit that were not entered yet. -/
theorem expression_follows (levels : Nat) {depth : Depth} (inside : depth.frames ≤ depth.levels)
    (left : levels = c.maxDepth.toNat - depth.levels) {p : Nat} {mode : Mode} {scope : Scope} :
    Follows c p (fun _ q => p ≤ q) (depth.expression mode scope)
      (Formula.expression levels mode scope) := by
  intro w hp bound
  rw [run_expression]
  -- On the levels: expressions nested in this one have one less, and bodies of lambdas two.
  cases levels with
  | zero =>
    have reached : c.maxDepth < depth.inner.levels := by
      rw [Depth.inner_levels]
      omega
    rw [if_pos reached]
    refine ⟨⟨w.deepest, bound, rfl⟩, ?_⟩
    intro v s hr
    cases hr
  | succ levels =>
    have below : ¬ c.maxDepth < depth.inner.levels := by
      rw [Depth.inner_levels]
      omega
    rw [if_neg below, expression_succ]
    have innerInside : depth.inner.frames ≤ depth.inner.levels := Nat.succ_le_succ inside
    have innerLeft : levels = c.maxDepth.toNat - depth.inner.levels := by
      rw [Depth.inner_levels]
      omega
    have calledInside : depth.inner.called.frames ≤ depth.inner.called.levels :=
      Nat.le_succ_of_le innerInside
    have calledLeft : levels - 1 = c.maxDepth.toNat - depth.inner.called.levels := by
      rw [Depth.called_levels]
      omega
    have nests : Nests c depth.inner
        { expression := Formula.expression levels
          body := Formula.expression (levels - 1) .live } :=
      { expression := expression_follows levels innerInside innerLeft
        body := body_follows (expression_follows (levels - 1) calledInside calledLeft) }
    exact reading_follows (by omega) (compared_follows nests) w hp bound
termination_by levels

theorem readAll_follows :
    Follows c p (fun _ _ => True) (readAll mode scope)
      (Formula.readAll c.maxDepth.toNat mode scope) := by
  apply Follows.bind (expression_follows c.maxDepth.toNat (Nat.le_refl 0) rfl)
  intro value q _
  apply Follows.step steps.peek
  rintro token q ⟨_, rfl⟩
  apply Follows.ite
  · intro _
    exact .throw
  · intro _
    exact .pure trivial

end

/-- Every evaluation ends, by the guard in front of its expressions alone, and ends as it does when
the levels are counted down. Never are more expressions being read than the limit allows. -/
theorem evaluate_ends_within_limit (c : Context) (mode : Mode) (scope : Scope) :
    ∃ deepest ≤ c.maxDepth.toNat,
      evaluate c mode scope = some (Formula.evaluate c mode scope, deepest) := by
  have follows : Follows c 0 (fun _ _ => True) (readAll mode scope)
      (Formula.readAll c.maxDepth.toNat mode scope) := readAll_follows
  obtain ⟨⟨deepest, bound, hr⟩, -⟩ := follows ⟨.start scope, 0⟩ rfl (Nat.zero_le _)
  refine ⟨deepest, bound, ?_⟩
  rw [evaluate, hr, evaluate_eq]
  cases Formula.readAll c.maxDepth.toNat mode scope c (.start scope) <;> rfl

end Unmeasured

end Quarterly.Formula
