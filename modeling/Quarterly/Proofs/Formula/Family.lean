import Quarterly.Formula.Evaluation

/-!
# Families of readings

The rules of the grammar know nothing of what is nested in the expression at hand: they are given
readings of nested expressions and of the bodies of lambdas. So a family of such readings makes a
family of readings of the expression itself, and what the members of a family have in common is kept
from rule to rule. A `FamilyLogic` says what it is that they have in common.
-/

namespace Quarterly.Formula

/-- What the members of a family of computations have in common, when it carries over to
computations in sequence and at another place. -/
structure FamilyLogic (ι : Type) where
  Holds : {α : Type} → (ι → Eval α) → Prop
  const : ∀ {α : Type} (m : Eval α), Holds fun _ => m
  bind : ∀ {α β : Type} {m : ι → Eval α} {f : ι → α → Eval β}, Holds m →
    (∀ a, Holds fun i => f i a) → Holds fun i => m i >>= f i
  elsewhere : ∀ {α : Type} {start : Nat} {m : ι → Eval α}, Holds m →
    Holds fun i => Eval.elsewhere start (m i)

namespace FamilyLogic

variable {ι α β : Type} (L : FamilyLogic ι)

/-- Computations that differ in the end only. -/
theorem after {m : Eval α} {f : ι → α → Eval β} (hf : ∀ a, L.Holds fun i => f i a) :
    L.Holds fun i => m >>= f i :=
  L.bind (L.const m) hf

/-- Computations that differ at the start only. -/
theorem before {m : ι → Eval α} {f : α → Eval β} (hm : L.Holds m) :
    L.Holds fun i => m i >>= f :=
  L.bind hm fun a => L.const (f a)

theorem ite {p : Prop} [Decidable p] {m n : ι → Eval α} (hm : L.Holds m) (hn : L.Holds n) :
    L.Holds fun i => if p then m i else n i := by
  split
  · exact hm
  · exact hn

/-! ### Lists of expressions -/

section

variable {item : ι → Eval Value} (holds : L.Holds item)

include holds

theorem moreItems (rounds : Nat) (items : Array Value) :
    L.Holds fun i => Rule.moreItems (item i) rounds items := by
  induction rounds generalizing items with
  | zero => exact L.const _
  | succ rounds ih =>
    refine L.after fun more => L.ite ?_ (L.const _)
    exact L.bind holds fun v => ih _

theorem items (closing : TokenKind) (problem : SyntaxFault) :
    L.Holds fun i => Rule.items (item i) closing problem := by
  refine L.after fun token => L.ite (L.const _) ?_
  refine L.bind holds fun first => L.after fun rounds => ?_
  exact L.before (L.moreItems holds rounds _)

theorem array : L.Holds fun i => Rule.array (item i) :=
  L.after fun _ => L.before (L.items holds _ _)

theorem arguments (function : String) :
    L.Holds fun i => Rule.arguments (item i) function :=
  L.after fun _ => L.items holds _ _

theorem parenthesized : L.Holds fun i => Rule.parenthesized (item i) :=
  L.after fun _ => L.before holds

end

/-! ### Calls and forms -/

section

variable {nested : ι → Nested}
  (expression : ∀ mode scope, L.Holds fun i => (nested i).expression mode scope)
  (body : ∀ scope, L.Holds fun i => (nested i).body scope) (mode : Mode) (scope : Scope)

section

include body

theorem callLambda (f : Lambda) (argument : Value) :
    L.Holds fun i => Rule.callLambda (nested i) scope f argument :=
  L.before (L.elsewhere (body _))

theorem mapLambda (f : Lambda) (items : List Value) :
    L.Holds fun i => items.mapM (Rule.callLambda (nested i) scope f) := by
  induction items with
  | nil => exact L.const _
  | cons v rest ih =>
    simp only [List.mapM_cons]
    exact L.bind (L.callLambda body scope f v) fun _ => L.before ih

theorem applyFunction (function : String) (args : List Value) :
    L.Holds fun i => Rule.applyFunction (nested i) scope function args := by
  unfold Rule.applyFunction
  refine L.ite ?_ (L.const _)
  refine L.after fun (items, f) => ?_
  exact L.before (L.mapLambda body scope f items)

end

section

include expression

theorem unknownCall (function : String) :
    L.Holds fun i => Rule.unknownCall (nested i) mode scope function :=
  L.before (L.arguments (expression mode scope) function)

theorem bindings (rounds : Nat) :
    L.Holds fun i => Rule.bindings (nested i) mode rounds scope := by
  induction rounds generalizing scope with
  | zero => exact L.const _
  | succ rounds ih =>
    refine L.after fun token => L.ite (L.const _) ?_
    refine L.after fun start => L.after fun name => L.after fun comma => ?_
    refine L.ite ?_ (L.const _)
    refine L.bind (expression mode scope) fun v => L.after fun next => L.ite (L.const _) ?_
    exact L.after fun more => L.ite (ih _) (L.const _)

theorem letForm : L.Holds fun i => Rule.letForm (nested i) mode scope := by
  refine L.after fun _ => L.after fun rounds => ?_
  refine L.bind (L.bindings expression mode scope rounds) fun scope => ?_
  exact L.before (expression mode scope)

theorem skip : L.Holds fun i => Rule.skip (nested i) scope :=
  L.after fun _ => L.before (L.elsewhere (expression .dry scope))

theorem lambdaForm : L.Holds fun i => Rule.lambdaForm (nested i) scope := by
  refine L.after fun _ => L.after fun _ => L.after fun _ => ?_
  exact L.after fun _ => L.before (L.skip expression scope)

theorem word (token : Token) :
    L.Holds fun i => Rule.word (nested i) mode scope token := by
  refine L.after fun _ => L.after fun next => ?_
  split
  · exact L.const _
  · exact L.unknownCall expression mode scope _
  · exact L.const _

end

include expression body

theorem call (function : String) :
    L.Holds fun i => Rule.call (nested i) mode scope function := by
  refine L.bind (L.arguments (expression mode scope) function) fun args => L.ite (L.const _) ?_
  exact L.before (L.applyFunction body scope function args)

theorem function (token : Token) :
    L.Holds fun i => Rule.function (nested i) mode scope token := by
  refine L.after fun _ => L.ite ?_ (L.ite ?_ ?_)
  · exact L.letForm expression mode scope
  · exact L.lambdaForm expression scope
  · exact L.call expression body mode scope _

/-! ### Operands and operators -/

theorem primary : L.Holds fun i => Rule.primary (nested i) mode scope := by
  refine L.after fun token => ?_
  split
  case h_3 => exact L.array (expression mode scope)
  case h_4 => exact L.word expression mode scope token
  case h_5 => exact L.function expression body mode scope token
  case h_6 => exact L.parenthesized (expression mode scope)
  all_goals exact L.const _

theorem signed (rounds : Nat) :
    L.Holds fun i => Rule.signed (Rule.primary (nested i) mode scope) mode rounds := by
  induction rounds with
  | zero => exact L.const _
  | succ rounds ih =>
    refine L.after fun _ => L.ite (L.before ih) ?_
    exact L.before (L.primary expression body mode scope)

theorem unary : L.Holds fun i => Rule.unary (nested i) mode scope :=
  L.after fun rounds => L.signed expression body mode scope rounds

omit expression body in
theorem level {operand : ι → Eval Value} (holds : L.Holds operand)
    (ops : String → Option ArithmeticOp) :
    L.Holds fun i => Rule.level (operand i) ops mode := by
  have chain : ∀ rounds left,
      L.Holds fun i => Rule.chain (operand i) ops mode rounds left := by
    intro rounds
    induction rounds with
    | zero => exact fun _ => L.const _
    | succ rounds ih =>
      intro left
      refine L.after fun op => ?_
      cases op with
      | none => exact L.const _
      | some op =>
        refine L.after fun _ => L.bind holds fun right => L.after fun v => ?_
        exact ih v
  exact L.bind holds fun left => L.after fun rounds => chain rounds left

theorem additive : L.Holds fun i => Rule.additive (nested i) mode scope :=
  L.level mode (L.level mode (L.unary expression body mode scope) _) _

theorem compared : L.Holds fun i => Rule.compared (nested i) mode scope := by
  refine L.bind (L.additive expression body mode scope) fun left => L.after fun op => ?_
  cases op with
  | none => exact L.const _
  | some op =>
    refine L.after fun _ => ?_
    exact L.before (L.additive expression body mode scope)

end

end FamilyLogic

end Quarterly.Formula
