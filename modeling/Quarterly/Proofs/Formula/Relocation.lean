import Quarterly.Proofs.Formula.BigStep
import Quarterly.Proofs.Formula.Likeness
import Quarterly.Proofs.Formula.Nesting

/-!
# The same words in another place

What an expression comes to depends on its own words and on what its names are bound to. It may
stand elsewhere, in another formula, behind other identities, and something else may follow it: the
values are alike and the same metrics are looked up in the same order (`Evaluates.alike`). The two
evaluations go through the same rules, since each rule is chosen by words that both have.
-/

namespace Quarterly.Formula

variable {tokens tokens' : Array Token}

/-! ### Copies -/

theorem kindAt_eq_map {p : Nat} : kindAt tokens p = (wordAt tokens p).map Word.kind := by
  unfold kindAt wordAt
  cases tokens[p]? <;> rfl

theorem operatorAt_eq_bind {p : Nat} : operatorAt tokens p =
    (wordAt tokens p).bind fun w => if w.kind = .operator then some w.text else none := by
  unfold operatorAt wordAt
  cases tokens[p]? <;> rfl

theorem functionAt_eq_bind {p : Nat} : functionAt tokens p =
    (wordAt tokens p).bind fun w => if w.kind = .function then some w.text else none := by
  unfold functionAt wordAt
  cases tokens[p]? <;> rfl

theorem LooseAt.operatorAt_eq_none {q : Nat} (h : LooseAt tokens 0 q) :
    operatorAt tokens q = none := by
  rw [Option.eq_none_iff_forall_ne_some]
  intro symbol ho
  have loose := h.operator ho
  rw [Word.tightness_operator] at loose
  split_ifs at loose <;> omega

/-- The same word is next in both places, or both next words bind to nothing before them. -/
def AlikeAt (tokens tokens' : Array Token) (i i' : Nat) : Prop :=
  wordAt tokens i = wordAt tokens' i' ∨ LooseAt tokens 0 i ∧ LooseAt tokens' 0 i'

namespace AlikeAt

variable {i i' : Nat} (h : AlikeAt tokens tokens' i i')

include h

theorem operatorAt_eq : operatorAt tokens i = operatorAt tokens' i' := by
  rcases h with same | ⟨loose, loose'⟩
  · rw [operatorAt_eq_bind, operatorAt_eq_bind, same]
  · rw [loose.operatorAt_eq_none, loose'.operatorAt_eq_none]

theorem opening {kind : TokenKind} (opens : kind = .leftBracket ∨ kind = .leftParen) :
    kindAt tokens i = some kind ↔ kindAt tokens' i' = some kind := by
  rcases h with same | ⟨loose, loose'⟩
  · rw [kindAt_eq_map, kindAt_eq_map, same]
  · have none := (loose.mono (Nat.zero_le 4)).noOpening
    have none' := (loose'.mono (Nat.zero_le 4)).noOpening
    rcases opens with rfl | rfl
    · exact iff_of_false none.1 none'.1
    · exact iff_of_false none.2 none'.2

end AlikeAt

/-- The words from `p` to `q` stand at `p'` as well. What follows may differ if it binds to
nothing before it. -/
structure Copied (tokens tokens' : Array Token) (p q p' : Nat) : Prop where
  words : ∀ i, p + i < q → wordAt tokens (p + i) = wordAt tokens' (p' + i)
  next : AlikeAt tokens tokens' q (p' + (q - p))

namespace Copied

variable {p q p' i j i' : Nat} (h : Copied tokens tokens' p q p')

include h

theorem wordAt_eq (inside : p ≤ i ∧ i < q ∧ i' = p' + (i - p)) :
    wordAt tokens i = wordAt tokens' i' := by
  obtain ⟨le, lt, rfl⟩ := inside
  have word := h.words (i - p) (by omega)
  rwa [Nat.add_sub_cancel' le] at word

theorem kindAt_eq (inside : p ≤ i ∧ i < q ∧ i' = p' + (i - p)) :
    kindAt tokens i = kindAt tokens' i' := by
  rw [kindAt_eq_map, kindAt_eq_map, h.wordAt_eq inside]

theorem functionAt_eq (inside : p ≤ i ∧ i < q ∧ i' = p' + (i - p)) :
    functionAt tokens i = functionAt tokens' i' := by
  rw [functionAt_eq_bind, functionAt_eq_bind, h.wordAt_eq inside]

theorem alikeAt (within : p ≤ i ∧ i ≤ q ∧ i' = p' + (i - p)) : AlikeAt tokens tokens' i i' := by
  obtain ⟨le, le', rfl⟩ := within
  obtain lt | rfl := Nat.lt_or_eq_of_le le'
  · exact .inl (h.wordAt_eq ⟨le, lt, rfl⟩)
  · exact h.next

theorem operatorAt_eq (within : p ≤ i ∧ i ≤ q ∧ i' = p' + (i - p)) :
    operatorAt tokens i = operatorAt tokens' i' :=
  (h.alikeAt within).operatorAt_eq

theorem bind_operatorAt_eq {α : Type} {ofSymbol? : String → Option α}
    (within : p ≤ i ∧ i ≤ q ∧ i' = p' + (i - p)) :
    (operatorAt tokens i).bind ofSymbol? = (operatorAt tokens' i').bind ofSymbol? := by
  rw [h.operatorAt_eq within]

theorem kindAt_some {kind : TokenKind} (inside : p ≤ i ∧ i < q ∧ i' = p' + (i - p))
    (here : kindAt tokens i = some kind) : kindAt tokens' i' = some kind :=
  (h.kindAt_eq inside).symm.trans here

theorem functionAt_some {name : String} (inside : p ≤ i ∧ i < q ∧ i' = p' + (i - p))
    (here : functionAt tokens i = some name) : functionAt tokens' i' = some name :=
  (h.functionAt_eq inside).symm.trans here

theorem operatorAt_some {symbol : String} (within : p ≤ i ∧ i ≤ q ∧ i' = p' + (i - p))
    (here : operatorAt tokens i = some symbol) : operatorAt tokens' i' = some symbol :=
  (h.operatorAt_eq within).symm.trans here

theorem word_eq {word word' : Word} (inside : p ≤ i ∧ i < q ∧ i' = p' + (i - p))
    (here : wordAt tokens i = some word) (there : wordAt tokens' i' = some word') : word = word' :=
  Option.some.inj (here.symm.trans ((h.wordAt_eq inside).trans there))

theorem kind_eq {kind kind' : TokenKind} (inside : p ≤ i ∧ i < q ∧ i' = p' + (i - p))
    (here : kindAt tokens i = some kind) (there : kindAt tokens' i' = some kind') : kind = kind' :=
  Option.some.inj (here.symm.trans ((h.kindAt_eq inside).trans there))

theorem function_eq {name name' : String} (inside : p ≤ i ∧ i < q ∧ i' = p' + (i - p))
    (here : functionAt tokens i = some name) (there : functionAt tokens' i' = some name') :
    name = name' :=
  Option.some.inj (here.symm.trans ((h.functionAt_eq inside).trans there))

/-- A part of a copy is a copy of the part. -/
theorem part (within : p ≤ i ∧ i ≤ j ∧ j ≤ q ∧ i' = p' + (i - p)) :
    Copied tokens tokens' i j i' where
  words k lt := h.wordAt_eq (by omega)
  next := h.alikeAt (by omega)

end Copied

/-- Phrases that end where no comma follows. -/
def Phrase.LooksAhead : Phrase → Prop
  | .others | .bindings => True
  | _ => False

theorem Rank.not_looksAhead (rank : Rank) : ¬ rank.operand.LooksAhead := by
  cases rank <;> exact id

theorem Reads.lt {phrase : Phrase} {p q : Nat} (h : Reads tokens phrase p q)
    (isOperand : phrase.IsOperand) : p < q := by
  induction h with
  | plain _ _ operand => exact operand trivial
  | comparison _ _ right left _ =>
    have := left trivial
    have := right.le
    omega
  | level _ rest first _ => exact Nat.lt_of_lt_of_le (first (Rank.isOperand_operand _)) rest.le
  | negation _ operand _ => exact operand.le
  | percent _ _ _ operand | unsigned _ _ _ operand =>
    have := operand trivial
    omega
  | number | string | name | reference => omega
  | array _ items _ | unknownCall _ _ items _ | call _ _ _ _ items _ =>
    have := items.le
    omega
  | letForm _ _ inner _ _ | lambdaForm _ _ _ _ inner _ _ | parenthesized _ inner _ _ =>
    have := inner.le
    omega
  | restEnd | restMore | emptyList | list | noOthers | others | body | binding | lastBinding =>
    exact isOperand.elim

/-- The grammar reads the same in a copy. -/
theorem Reads.copied {phrase : Phrase} {p q p' q' : Nat} (h : Reads tokens phrase p q)
    (copied : Copied tokens tokens' p q p') (ends : q' = p' + (q - p))
    (exactly : phrase.LooksAhead → wordAt tokens q = wordAt tokens' q') :
    Reads tokens' phrase p' q' := by
  induction h generalizing p' q' with
  | plain operand next ih =>
    have := operand.le
    exact .plain (ih copied ends nofun) ((copied.bind_operatorAt_eq (by omega)).symm.trans next)
  | comparison left next right ihLeft ihRight =>
    have := left.le
    have := right.le
    exact .comparison (ihLeft (copied.part (by omega)) rfl nofun)
      ((copied.bind_operatorAt_eq (by omega)).symm.trans next)
      (ihRight (copied.part (by omega)) (by omega) nofun)
  | level first rest ihFirst ihRest =>
    have := first.le
    have := rest.le
    exact .level (ihFirst (copied.part (by omega)) rfl fun h => (Rank.not_looksAhead _ h).elim)
      (ihRest (copied.part (by omega)) (by omega) nofun)
  | restEnd next =>
    obtain rfl : q' = p' := by omega
    exact .restEnd ((copied.bind_operatorAt_eq (by omega)).symm.trans next)
  | restMore next operand rest ihOperand ihRest =>
    have := operand.le
    have := rest.le
    exact .restMore ((copied.bind_operatorAt_eq (by omega)).symm.trans next)
      (ihOperand (copied.part (by omega)) rfl fun h => (Rank.not_looksAhead _ h).elim)
      (ihRest (copied.part (by omega)) (by omega) nofun)
  | negation next operand ih =>
    have := operand.le
    exact .negation (copied.operatorAt_some (by omega) next)
      (ih (copied.part (by omega)) (by omega) nofun)
  | percent sign operand next ih =>
    have := operand.le
    obtain ⟨r, rfl⟩ : ∃ r, q' = r + 1 := ⟨q' - 1, by omega⟩
    exact .percent (fun h => sign ((copied.operatorAt_eq (by omega)).trans h))
      (ih (copied.part (by omega)) (by omega) nofun)
      (copied.operatorAt_some (by omega) next)
  | unsigned sign operand next ih =>
    have := operand.le
    exact .unsigned (fun h => sign ((copied.operatorAt_eq (by omega)).trans h))
      (ih copied ends nofun) (fun h => next ((copied.operatorAt_eq (by omega)).trans h))
  | number kind =>
    obtain rfl : q' = p' + 1 := by omega
    exact .number (copied.kindAt_some (by omega) kind)
  | string kind =>
    obtain rfl : q' = p' + 1 := by omega
    exact .string (copied.kindAt_some (by omega) kind)
  | array kind items ih =>
    have := items.le
    exact .array (copied.kindAt_some (by omega) kind)
      (ih (copied.part (by omega)) (by omega) nofun)
  | name kind noBracket noParen =>
    obtain rfl : q' = p' + 1 := by omega
    exact .name (copied.kindAt_some (by omega) kind)
      (mt ((copied.alikeAt (by omega)).opening (.inl rfl)).mpr noBracket)
      (mt ((copied.alikeAt (by omega)).opening (.inr rfl)).mpr noParen)
  | reference kind opening index closing =>
    obtain rfl : q' = p' + 4 := by omega
    refine .reference (copied.kindAt_some (by omega) kind)
      (copied.kindAt_some (by omega) opening) ?_
      (copied.kindAt_some (by omega) closing)
    exact index.imp (copied.kindAt_some (by omega) ·) (copied.kindAt_some (by omega) ·)
  | unknownCall kind opening arguments ih =>
    have := arguments.le
    exact .unknownCall (copied.kindAt_some (by omega) kind)
      (copied.kindAt_some (by omega) opening)
      (ih (copied.part (by omega)) (by omega) nofun)
  | call function noLet noLambda opening arguments ih =>
    have := arguments.le
    exact .call (copied.functionAt_some (by omega) function) noLet noLambda
      (copied.kindAt_some (by omega) opening)
      (ih (copied.part (by omega)) (by omega) nofun)
  | letForm function opening bindings closing ih =>
    have := bindings.le
    obtain ⟨r, rfl⟩ : ∃ r, q' = r + 1 := ⟨q' - 1, by omega⟩
    exact .letForm (copied.functionAt_some (by omega) function)
      (copied.kindAt_some (by omega) opening)
      (ih (copied.part (by omega)) (by omega) fun _ => copied.wordAt_eq (by omega))
      (copied.kindAt_some (by omega) closing)
  | lambdaForm function opening parameter comma body closing ih =>
    have := body.le
    obtain ⟨r, rfl⟩ : ∃ r, q' = r + 1 := ⟨q' - 1, by omega⟩
    exact .lambdaForm (copied.functionAt_some (by omega) function)
      (copied.kindAt_some (by omega) opening)
      (copied.kindAt_some (by omega) parameter)
      (copied.kindAt_some (by omega) comma)
      (ih (copied.part (by omega)) (by omega) nofun)
      (copied.kindAt_some (by omega) closing)
  | parenthesized kind inner closing ih =>
    have := inner.le
    obtain ⟨r, rfl⟩ : ∃ r, q' = r + 1 := ⟨q' - 1, by omega⟩
    exact .parenthesized (copied.kindAt_some (by omega) kind)
      (ih (copied.part (by omega)) (by omega) nofun)
      (copied.kindAt_some (by omega) closing)
  | emptyList kind =>
    obtain rfl : q' = p' + 1 := by omega
    exact .emptyList (copied.kindAt_some (by omega) kind)
  | list notEmpty first others kind ihFirst ihOthers =>
    have := first.le
    have := others.le
    obtain ⟨r, rfl⟩ : ∃ r, q' = r + 1 := ⟨q' - 1, by omega⟩
    exact .list (fun h => notEmpty ((copied.kindAt_eq (by omega)).trans h))
      (ihFirst (copied.part (by omega)) rfl nofun)
      (ihOthers (copied.part (by omega)) (by omega) fun _ => copied.wordAt_eq (by omega))
      (copied.kindAt_some (by omega) kind)
  | noOthers next =>
    obtain rfl : q' = p' := by omega
    refine .noOthers fun h => next ?_
    rwa [kindAt_eq_map, exactly trivial, ← kindAt_eq_map]
  | others next item rest ihItem ihRest =>
    have := item.lt trivial
    have := rest.le
    exact .others (copied.kindAt_some (by omega) next)
      (ihItem (copied.part (by omega)) rfl nofun)
      (ihRest (copied.part (by omega)) (by omega) exactly)
  | @body p q next body ih =>
    have := body.lt trivial
    have second : kindAt tokens (p + 1) = kindAt tokens' (p' + 1) := by
      obtain lt | last : p + 1 < q ∨ p + 1 = q := by omega
      · exact copied.kindAt_eq (by omega)
      · obtain rfl : q' = p' + 1 := by omega
        rw [kindAt_eq_map, last, exactly trivial, ← kindAt_eq_map]
    exact .body (fun h => next ⟨(copied.kindAt_eq (by omega)).trans h.1, second.trans h.2⟩)
      (ih copied ends nofun)
  | binding next value comma rest ihValue ihRest =>
    have := value.le
    have := rest.le
    exact .binding ⟨copied.kindAt_some (by omega) next.1,
        copied.kindAt_some (by omega) next.2⟩
      (ihValue (copied.part (by omega)) rfl nofun)
      (copied.kindAt_some (by omega) comma)
      (ihRest (copied.part (by omega)) (by omega) exactly)
  | lastBinding next value noComma body ihValue ihBody =>
    have := value.le
    have := body.lt trivial
    exact .lastBinding ⟨copied.kindAt_some (by omega) next.1,
        copied.kindAt_some (by omega) next.2⟩
      (ihValue (copied.part (by omega)) rfl nofun)
      (fun h => noComma ((copied.kindAt_eq (by omega)).trans h))
      (ihBody (copied.part (by omega)) (by omega) nofun)

/-- The body of a lambda is a copy of the body of another one. -/
def Lambda.Copied (tokens tokens' : Array Token) (f f' : Lambda) : Prop :=
  Formula.Copied tokens tokens' f.start f.stop f'.start ∧ f'.stop = f'.start + (f.stop - f.start)

/-! ### What is known at first -/

/-- Scopes that bind the same names to alike values. -/
def Scope.Like (w : Matching) (L : Lambda → Lambda → Prop) (scope scope' : Scope) : Prop :=
  List.Forall₂ (fun b b' => b.1 = b'.1 ∧ b.2.Like w L b'.2) scope scope'

namespace Scope.Like

variable {w : Matching} {L : Lambda → Lambda → Prop} {scope scope' : Scope}

theorem mono {w' : Matching} (h : Scope.Like w L scope scope') (le : w ≤ w') :
    Scope.Like w' L scope scope' :=
  List.Forall₂.imp (fun _ _ same => ⟨same.1, same.2.mono le⟩) h

theorem cons {name : String} {u v : Value} (h : Scope.Like w L scope scope') (value : u.Like w L v) :
    Scope.Like w L ((name, u) :: scope) ((name, v) :: scope') :=
  List.Forall₂.cons ⟨rfl, value⟩ h

theorem lookup (h : Scope.Like w L scope scope') {name : String} {u v : Value}
    (hu : scope.lookup name = some u) (hv : scope'.lookup name = some v) : u.Like w L v := by
  induction h with
  | nil => cases hu
  | @cons b b' _ _ same _ ih =>
    rw [List.lookup_cons, same.1] at hu
    rw [List.lookup_cons] at hv
    split at hu
    · simp_all
    · simp_all

theorem lookup_eq_none_iff (h : Scope.Like w L scope scope') {name : String} :
    scope.lookup name = none ↔ scope'.lookup name = none := by
  induction h with
  | nil => exact Iff.rfl
  | @cons b b' _ _ same _ ih =>
    rw [List.lookup_cons, List.lookup_cons, same.1]
    split
    · simp
    · exact ih

end Scope.Like

/-- Tasks that go on from alike values. -/
inductive Task.Like (w : Matching) (L : Lambda → Lambda → Prop) : Task → Task → Prop where
  | expression : Like w L .expression .expression
  | level {rank} : Like w L (.level rank) (.level rank)
  | rest {rank u v} (left : u.Like w L v) : Like w L (.rest rank u) (.rest rank v)
  | unary : Like w L .unary .unary
  | primary {kind} : Like w L (.primary kind) (.primary kind)
  | list {closing} : Like w L (.list closing) (.list closing)
  | others {closing} : Like w L (.others closing) (.others closing)
  | bindings : Like w L .bindings .bindings
  | calls {f f' args args'} (parameter : f.parameter = f'.parameter) (body : L f f')
      (arguments : List.Forall₂ (Value.Like w L) args args') :
      Like w L (.calls f args) (.calls f' args')

theorem Rank.like_task {w : Matching} {L : Lambda → Lambda → Prop} (rank : Rank) :
    Task.Like w L rank.task rank.task := by
  cases rank with
  | sum => exact .level
  | product => exact .unary

theorem Reads.lt_of_list {closing : TokenKind} {p q : Nat} (h : Reads tokens (.list closing) p q) :
    p < q := by
  cases h with
  | emptyList => omega
  | list _ first others _ =>
    have := first.le
    have := others.le
    omega

/-- Tasks that take at least one token. -/
def Task.Takes : Task → Prop
  | .rest .. | .calls .. => False
  | _ => True

section

variable {table : Metric.Table Float} {task : Task} {scope : Scope} {p n q k : Nat}
  {ls : List (String × Int)} {vs : List Value} (h : Evaluates tokens table task scope p n q k ls vs)

include h

theorem Evaluates.le : p ≤ q := by
  have reads := h.reads
  cases task with
  | others | bindings =>
    obtain ⟨r, rfl, inner, -⟩ := reads
    exact Nat.le_succ_of_le inner.le
  | calls => exact Nat.le_of_eq reads
  | _ => exact Reads.le reads

theorem Evaluates.lt (takes : task.Takes) : p < q := by
  have reads := h.reads
  cases task with
  | others | bindings =>
    obtain ⟨r, rfl, inner, -⟩ := reads
    exact Nat.lt_succ_of_le inner.le
  | rest | calls => exact takes.elim
  | list => exact Reads.lt_of_list reads
  | _ => exact Reads.lt reads trivial

end

/-! ### Evaluations of the same words -/

/-- What evaluations of the same words have in common: they end in the same place, look the same up
and have alike results. -/
def SameOutcome (tokens tokens' : Array Token) (w : Matching) (q r k m : Nat)
    (ls ls' : List (String × Int)) (vs us : List Value) : Prop :=
  q = r ∧ ls = ls' ∧ ∃ w' : Matching, w ≤ w' ∧ w'.Below k m ∧
    List.Forall₂ (Value.Like w' (Lambda.Copied tokens tokens')) vs us

theorem percentOf_like {w : Matching} {L : Lambda → Lambda → Prop} {u v : Value}
    (h : u.Like w L v) : Both (Value.Like w L) (percentOf u) (percentOf v) := by
  cases h with
  | scalar h =>
    cases u with
    | number n => exact .bind rfl fun _ => .pure (.scalar trivial)
    | _ => exact .pure (.scalar h)
  | array same length items => exact .pure (.array same length items)
  | lambda same parameter body => exact .pure (.lambda same parameter body)

/-- Alike answers make alike values, and new arrays are matched. -/
theorem Answer.Like.exists_value {w : Matching} {L : Lambda → Lambda → Prop} {answer answer' : Answer}
    {k k' : Nat} (h : answer.Like w L answer') (below : w.Below k k') :
    ∃ w' : Matching, w ≤ w' ∧ w'.Below (answer.nextIdentity k) (answer'.nextIdentity k') ∧
      (answer.valueWith k).Like w' L (answer'.valueWith k') := by
  cases h with
  | value h => exact ⟨w, le_rfl, below, h⟩
  | newArray h =>
    exact ⟨w.extend below, w.le_extend below, w.below_extend below,
      .newArray (w.extend_new below) (h.imp fun _ _ item => item.mono (w.le_extend below))⟩

/-- The same words come to the same in alike scopes. The induction is on one evaluation. Of the
rules that the other one may go by, those that other words choose are excluded by the copy, and the
matching grows with every identity that both take. -/
theorem Evaluates.alike {table : Metric.Table Float} {task task' : Task} {scope scope' : Scope}
    {p n q k p' n' r m : Nat} {ls ls' : List (String × Int)} {vs us : List Value} {w : Matching}
    (h : Evaluates tokens table task scope p n q k ls vs)
    (h' : Evaluates tokens' table task' scope' p' n' r m ls' us)
    (tasks : Task.Like w (Lambda.Copied tokens tokens') task task')
    (scopes : Scope.Like w (Lambda.Copied tokens tokens') scope scope') (below : w.Below n n')
    (copied : Copied tokens tokens' p q p') :
    SameOutcome tokens tokens' w (p' + (q - p)) r k m ls ls' vs us := by
  induction h generalizing task' scope' p' n' r m ls' us w with
  | plain operand next ihOperand =>
    have le := operand.le
    cases tasks
    cases h' with
    | plain operand' _ => exact ihOperand operand' .level scopes below copied
    | comparison operand' next' _ _ =>
      -- Both operands end in the same place, where the same word is next.
      obtain ⟨rfl, -⟩ := ihOperand operand' .level scopes below copied
      cases next.symm.trans ((copied.bind_operatorAt_eq (by omega)).trans next')
  | comparison left next right compared ihLeft ihRight =>
    have le := left.le
    have le' := right.le
    cases tasks
    cases h' with
    | plain left' next' =>
      obtain ⟨rfl, -⟩ := ihLeft left' .level scopes below (copied.part (by omega))
      cases next.symm.trans ((copied.bind_operatorAt_eq (by omega)).trans next')
    | comparison left' next' right' compared' =>
      obtain ⟨rfl, rfl, w₁, le₁, below₁, _ | ⟨a, -⟩⟩ :=
        ihLeft left' .level scopes below (copied.part (by omega))
      cases next.symm.trans ((copied.bind_operatorAt_eq (by omega)).trans next')
      obtain ⟨ends, rfl, w₂, le₂, below₂, _ | ⟨b, -⟩⟩ :=
        ihRight right' .level (scopes.mono le₁) below₁ (copied.part (by omega))
      cases compared.symm.trans (((a.mono le₂).comparison_eq b _).trans compared')
      exact ⟨by omega, rfl, w₂, le₁.trans le₂, below₂, .cons (.scalar trivial) .nil⟩
  | level first rest ihFirst ihRest =>
    have le := first.le
    have le' := rest.le
    cases tasks
    cases h' with
    | level first' rest' =>
      obtain ⟨rfl, rfl, w₁, le₁, below₁, _ | ⟨a, -⟩⟩ :=
        ihFirst first' (Rank.like_task _) scopes below (copied.part (by omega))
      obtain ⟨ends, rfl, w₂, le₂, below₂, like⟩ :=
        ihRest rest' (.rest a) (scopes.mono le₁) below₁ (copied.part (by omega))
      exact ⟨by omega, rfl, w₂, le₁.trans le₂, below₂, like⟩
  | restEnd next =>
    cases tasks with
    | rest left =>
      cases h' with
      | restEnd _ => exact ⟨by omega, rfl, w, le_rfl, below, .cons left .nil⟩
      | restMore next' _ _ _ =>
        cases next.symm.trans ((copied.bind_operatorAt_eq (by omega)).trans next')
  | restMore next operand combined rest ihOperand ihRest =>
    have le := operand.le
    have le' := rest.le
    cases tasks with
    | rest left =>
      cases h' with
      | restEnd next' => cases next.symm.trans ((copied.bind_operatorAt_eq (by omega)).trans next')
      | restMore next' operand' combined' rest' =>
        cases next.symm.trans ((copied.bind_operatorAt_eq (by omega)).trans next')
        obtain ⟨rfl, rfl, w₁, le₁, below₁, _ | ⟨b, -⟩⟩ :=
          ihOperand operand' (Rank.like_task _) scopes below (copied.part (by omega))
        cases combined.symm.trans (((left.mono le₁).arithmetic_eq b _).trans combined')
        obtain ⟨ends, rfl, w₂, le₂, below₂, like⟩ :=
          ihRest rest' (.rest (.scalar (isScalar_arithmetic combined))) (scopes.mono le₁) below₁
            (copied.part (by omega))
        exact ⟨by omega, rfl, w₂, le₁.trans le₂, below₂, like⟩
  | negation next operand ihOperand =>
    have le := operand.le
    cases tasks
    cases h' with
    | negation _ operand' =>
      obtain ⟨ends, rfl, w₁, le₁, below₁, _ | ⟨v, -⟩⟩ :=
        ihOperand operand' .unary scopes below (copied.part (by omega))
      exact ⟨by omega, rfl, w₁, le₁, below₁, .cons v.negate_like .nil⟩
    | percent sign' _ _ _ | unsigned sign' _ _ =>
      exact absurd (copied.operatorAt_some (by omega) next) sign'
  | percent sign operand next divided ihOperand =>
    have lt := operand.lt trivial
    cases tasks
    cases h' with
    | negation next' _ => exact absurd ((copied.operatorAt_eq (by omega)).trans next') sign
    | percent _ operand' _ divided' =>
      cases copied.kind_eq (by omega) operand.kindAt_primary operand'.kindAt_primary
      obtain ⟨rfl, rfl, w₁, le₁, below₁, _ | ⟨v, -⟩⟩ :=
        ihOperand operand' .primary scopes below (copied.part (by omega))
      have quotient := percentOf_like v _ _ divided divided'
      exact ⟨by omega, rfl, w₁, le₁, below₁, .cons quotient .nil⟩
    | unsigned _ operand' next' =>
      cases copied.kind_eq (by omega) operand.kindAt_primary operand'.kindAt_primary
      obtain ⟨rfl, -⟩ := ihOperand operand' .primary scopes below (copied.part (by omega))
      exact absurd (copied.operatorAt_some (by omega) next) next'
  | unsigned sign operand next ihOperand =>
    have lt := operand.lt trivial
    cases tasks
    cases h' with
    | negation next' _ => exact absurd ((copied.operatorAt_eq (by omega)).trans next') sign
    | percent _ operand' next' _ =>
      cases copied.kind_eq (by omega) operand.kindAt_primary operand'.kindAt_primary
      obtain ⟨rfl, -⟩ := ihOperand operand' .primary scopes below copied
      exact absurd ((copied.operatorAt_eq (by omega)).trans next') next
    | unsigned _ operand' _ =>
      cases copied.kind_eq (by omega) operand.kindAt_primary operand'.kindAt_primary
      exact ihOperand operand' .primary scopes below copied
  | number word numeral =>
    cases tasks
    cases h' with
    | number word' numeral' =>
      cases copied.word_eq (by omega) word word'
      cases numeral.symm.trans numeral'
      exact ⟨by omega, rfl, w, le_rfl, below, .cons (.scalar (Value.isScalar_ofFinite _)) .nil⟩
  | string word =>
    cases tasks
    cases h' with
    | string word' =>
      cases copied.word_eq (by omega) word word'
      exact ⟨by omega, rfl, w, le_rfl, below, .cons (.scalar trivial) .nil⟩
  | array kind items ihItems =>
    have le := items.le
    cases tasks
    cases h' with
    | array _ items' =>
      obtain ⟨ends, rfl, w₁, le₁, below₁, like⟩ :=
        ihItems items' .list scopes below (copied.part (by omega))
      have array := Value.Like.newArray (w₁.extend_new below₁)
        (like.imp fun _ _ item => item.mono (w₁.le_extend below₁))
      exact ⟨by omega, rfl, w₁.extend below₁, le₁.trans (w₁.le_extend below₁),
        w₁.below_extend below₁, .cons array .nil⟩
  | bound word noBracket noParen binding =>
    cases tasks
    cases h' with
    | bound word' _ _ binding' =>
      cases copied.word_eq (by omega) word word'
      have like := scopes.lookup binding binding'
      exact ⟨by omega, rfl, w, le_rfl, below, .cons like .nil⟩
    | metric word' _ _ free' =>
      cases copied.word_eq (by omega) word word'
      cases binding.symm.trans (scopes.lookup_eq_none_iff.mpr free')
    | reference _ opening' =>
      exact absurd (((copied.alikeAt (by omega)).opening (.inl rfl)).mpr opening') noBracket
    | unknownCall _ opening' =>
      exact absurd (((copied.alikeAt (by omega)).opening (.inr rfl)).mpr opening') noParen
  | metric word noBracket noParen free =>
    cases tasks
    cases h' with
    | bound word' _ _ binding' =>
      cases copied.word_eq (by omega) word word'
      cases binding'.symm.trans (scopes.lookup_eq_none_iff.mp free)
    | metric word' _ _ _ =>
      cases copied.word_eq (by omega) word word'
      exact ⟨by omega, rfl, w, le_rfl, below, .cons (.scalar (isScalar_lookupValue _)) .nil⟩
    | reference _ opening' =>
      exact absurd (((copied.alikeAt (by omega)).opening (.inl rfl)).mpr opening') noBracket
    | unknownCall _ opening' =>
      exact absurd (((copied.alikeAt (by omega)).opening (.inr rfl)).mpr opening') noParen
  | reference word opening index counted closing =>
    cases tasks
    cases h' with
    | bound _ noBracket' | metric _ noBracket' =>
      exact absurd (copied.kindAt_some (by omega) opening) noBracket'
    | reference word' _ index' counted' _ =>
      cases copied.word_eq (by omega) word word'
      cases copied.word_eq (by omega) index index'
      cases counted.symm.trans counted'
      exact ⟨by omega, rfl, w, le_rfl, below, .cons (.scalar (isScalar_lookupValue _)) .nil⟩
    | unknownCall _ opening' =>
      cases copied.kind_eq (by omega) opening opening'
  | unknownCall kind opening arguments ihArguments =>
    have le := arguments.le
    cases tasks
    cases h' with
    | bound _ _ noParen' | metric _ _ noParen' =>
      exact absurd (copied.kindAt_some (by omega) opening) noParen'
    | reference _ opening' =>
      cases copied.kind_eq (by omega) opening opening'
    | unknownCall _ _ arguments' =>
      obtain ⟨ends, rfl, w₁, le₁, below₁, -⟩ :=
        ihArguments arguments' .list scopes below (copied.part (by omega))
      exact ⟨by omega, rfl, w₁, le₁, below₁, .cons (.scalar trivial) .nil⟩
  | call function noMap noLet noLambda known opening arguments applied ihArguments =>
    have le := arguments.le
    cases tasks
    cases h' with
    | call function' _ _ _ known' _ arguments' applied' =>
      cases copied.function_eq (by omega) function function'
      cases known.symm.trans known'
      obtain ⟨rfl, rfl, w₁, le₁, below₁, like⟩ :=
        ihArguments arguments' .list scopes below (copied.part (by omega))
      obtain ⟨w₂, le₂, below₂, value⟩ :=
        (Builtin.both_apply like _ _ _ applied applied').exists_value below₁
      exact ⟨by omega, rfl, w₂, le₁.trans le₂, below₂, .cons value .nil⟩
    | map function' =>
      exact absurd (copied.function_eq (by omega) function function') noMap
    | letForm function' =>
      exact absurd (copied.function_eq (by omega) function function') noLet
    | lambdaForm function' =>
      exact absurd (copied.function_eq (by omega) function function') noLambda
  | map function opening arguments mapping calls ihArguments ihCalls =>
    have le := arguments.le
    cases tasks
    cases h' with
    | call function' noMap' =>
      cases copied.function_eq (by omega) function function'
      exact absurd rfl noMap'
    | map _ _ arguments' mapping' calls' =>
      obtain ⟨rfl, rfl, w₁, le₁, below₁, like⟩ :=
        ihArguments arguments' .list scopes below (copied.part (by omega))
      obtain ⟨items, parameter, body⟩ := Library.both_mapArguments like _ _ mapping mapping'
      obtain ⟨ends, rfl, w₂, le₂, below₂, results⟩ :=
        ihCalls calls' (.calls parameter body items) (scopes.mono le₁) below₁
          (copied.part (by omega))
      have array := Value.Like.newArray (w₂.extend_new below₂)
        (results.imp fun _ _ item => item.mono (w₂.le_extend below₂))
      exact ⟨by omega, rfl, w₂.extend below₂, (le₁.trans le₂).trans (w₂.le_extend below₂),
        w₂.below_extend below₂, .cons array .nil⟩
    | letForm function' | lambdaForm function' =>
      exact absurd (copied.function_eq (by omega) function function') (by decide)
  | letForm function opening bindings ihBindings =>
    have le := bindings.le
    cases tasks
    cases h' with
    | call function' _ noLet' =>
      cases copied.function_eq (by omega) function function'
      exact absurd rfl noLet'
    | letForm _ _ bindings' =>
      obtain ⟨ends, rfl, w₁, le₁, below₁, like⟩ :=
        ihBindings bindings' .bindings scopes below (copied.part (by omega))
      exact ⟨by omega, rfl, w₁, le₁, below₁, like⟩
    | map function' | lambdaForm function' =>
      exact absurd (copied.function_eq (by omega) function function') (by decide)
  | @lambdaForm _ p _ q _ function opening word comma body closing =>
    have lt := body.lt trivial
    cases tasks
    cases h' with
    | call function' _ _ noLambda' =>
      cases copied.function_eq (by omega) function function'
      exact absurd rfl noLambda'
    | lambdaForm _ _ word' _ body' _ =>
      -- The body is not evaluated here, but read: in a copy up to the same place.
      cases copied.word_eq (by omega) word word'
      have bodies : Copied tokens tokens' (p + 4) q (p' + 4) := copied.part (by omega)
      obtain rfl := (body.copied bodies rfl nofun).unique body'
      exact ⟨by omega, rfl, w.extend below, w.le_extend below, w.below_extend below,
        .cons (.lambda (w.extend_new below) rfl ⟨bodies, rfl⟩) .nil⟩
    | map function' | letForm function' =>
      exact absurd (copied.function_eq (by omega) function function') (by decide)
  | parenthesized kind inner closing ihInner =>
    have le := inner.le
    cases tasks
    cases h' with
    | parenthesized _ inner' _ =>
      obtain ⟨rfl, rfl, w₁, le₁, below₁, like⟩ :=
        ihInner inner' .expression scopes below (copied.part (by omega))
      exact ⟨by omega, rfl, w₁, le₁, below₁, like⟩
  | emptyList kind =>
    cases tasks
    cases h' with
    | emptyList _ => exact ⟨by omega, rfl, w, le_rfl, below, .nil⟩
    | list notEmpty' => exact absurd (copied.kindAt_some (by omega) kind) notEmpty'
  | list notEmpty first others ihFirst ihOthers =>
    have lt := first.lt trivial
    have le := others.le
    cases tasks
    cases h' with
    | emptyList kind' => exact absurd ((copied.kindAt_eq (by omega)).trans kind') notEmpty
    | list _ first' others' =>
      obtain ⟨rfl, rfl, w₁, le₁, below₁, _ | ⟨v, -⟩⟩ :=
        ihFirst first' .expression scopes below (copied.part (by omega))
      obtain ⟨ends, rfl, w₂, le₂, below₂, like⟩ :=
        ihOthers others' .others (scopes.mono le₁) below₁ (copied.part (by omega))
      exact ⟨by omega, rfl, w₂, le₁.trans le₂, below₂, .cons (v.mono le₂) like⟩
  | noOthers next kind =>
    cases tasks
    cases h' with
    | noOthers => exact ⟨by omega, rfl, w, le_rfl, below, .nil⟩
    | others next' => exact absurd ((copied.kindAt_eq (by omega)).trans next') next
  | others next item rest ihItem ihRest =>
    have lt := item.lt trivial
    have le := rest.le
    cases tasks
    cases h' with
    | noOthers next' => exact absurd (copied.kindAt_some (by omega) next) next'
    | others _ item' rest' =>
      obtain ⟨rfl, rfl, w₁, le₁, below₁, _ | ⟨v, -⟩⟩ :=
        ihItem item' .expression scopes below (copied.part (by omega))
      obtain ⟨ends, rfl, w₂, le₂, below₂, like⟩ :=
        ihRest rest' .others (scopes.mono le₁) below₁ (copied.part (by omega))
      exact ⟨by omega, rfl, w₂, le₁.trans le₂, below₂, .cons (v.mono le₂) like⟩
  | body next body closing ihBody =>
    have lt := body.lt trivial
    cases tasks
    cases h' with
    | body _ body' _ =>
      obtain ⟨rfl, rfl, w₁, le₁, below₁, like⟩ :=
        ihBody body' .expression scopes below (copied.part (by omega))
      exact ⟨by omega, rfl, w₁, le₁, below₁, like⟩
    | binding word' next' | lastBinding word' next' =>
      exact absurd ⟨(copied.kindAt_eq (by omega)).trans (kindAt_of_wordAt word'),
        (copied.kindAt_eq (by omega)).trans next'⟩ next
  | binding word next value comma rest ihValue ihRest =>
    have lt := value.lt trivial
    have le := rest.le
    cases tasks
    cases h' with
    | body next' =>
      exact absurd ⟨copied.kindAt_some (by omega) (kindAt_of_wordAt word),
        copied.kindAt_some (by omega) next⟩ next'
    | binding word' _ value' _ rest' =>
      cases copied.word_eq (by omega) word word'
      obtain ⟨rfl, rfl, w₁, le₁, below₁, _ | ⟨v, -⟩⟩ :=
        ihValue value' .expression scopes below (copied.part (by omega))
      obtain ⟨ends, rfl, w₂, le₂, below₂, like⟩ :=
        ihRest rest' .bindings ((scopes.mono le₁).cons v) below₁ (copied.part (by omega))
      exact ⟨by omega, rfl, w₂, le₁.trans le₂, below₂, like⟩
    | lastBinding _ _ value' noComma' _ _ =>
      obtain ⟨rfl, -⟩ := ihValue value' .expression scopes below (copied.part (by omega))
      exact absurd (copied.kindAt_some (by omega) comma) noComma'
  | lastBinding word next value noComma body closing ihValue ihBody =>
    have lt := value.lt trivial
    have le := body.le
    cases tasks
    cases h' with
    | body next' =>
      exact absurd ⟨copied.kindAt_some (by omega) (kindAt_of_wordAt word),
        copied.kindAt_some (by omega) next⟩ next'
    | binding _ _ value' comma' _ =>
      obtain ⟨rfl, -⟩ := ihValue value' .expression scopes below (copied.part (by omega))
      exact absurd ((copied.kindAt_eq (by omega)).trans comma') noComma
    | lastBinding word' _ value' _ body' _ =>
      cases copied.word_eq (by omega) word word'
      obtain ⟨rfl, rfl, w₁, le₁, below₁, _ | ⟨v, -⟩⟩ :=
        ihValue value' .expression scopes below (copied.part (by omega))
      obtain ⟨rfl, rfl, w₂, le₂, below₂, like⟩ :=
        ihBody body' .expression ((scopes.mono le₁).cons v) below₁ (copied.part (by omega))
      exact ⟨by omega, rfl, w₂, le₁.trans le₂, below₂, like⟩
  | noCalls =>
    cases tasks with
    | calls _ _ arguments =>
      cases arguments
      cases h'
      exact ⟨by omega, rfl, w, le_rfl, below, .nil⟩
  | calls body rest ihBody ihRest =>
    cases tasks with
    | calls parameter bodies arguments =>
      cases arguments with
      | cons argument arguments =>
        cases h' with
        | calls body' rest' =>
          -- The bodies stand where the lambdas say, not where the calls stand.
          rw [← parameter] at body'
          obtain ⟨-, rfl, w₁, le₁, below₁, _ | ⟨v, -⟩⟩ :=
            ihBody body' .expression (scopes.cons argument) below bodies.1
          have others := arguments.imp fun _ _ like => like.mono le₁
          obtain ⟨ends, rfl, w₂, le₂, below₂, like⟩ :=
            ihRest rest' (.calls parameter bodies others) (scopes.mono le₁) below₁ copied
          exact ⟨ends, rfl, w₂, le₁.trans le₂, below₂, .cons (v.mono le₂) like⟩

end Quarterly.Formula
