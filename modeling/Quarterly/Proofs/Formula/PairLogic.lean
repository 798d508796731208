import Mathlib.Data.List.Forall2
import Mathlib.Order.Basic
import Quarterly.Proofs.Formula.Provenance
import Quarterly.Proofs.Formula.Run

/-!
# A program logic for pairs of readings

Two readings that meet the same kinds and texts of tokens do the same things in the same order. What
they are compared for differs: their values, their faults, what they note. A `PairLogic` is a way to
compare two computations that knows how to deal with the primitives and with sequencing. With no
more than that, two readings of an expression can be compared rule by rule (`Nests.compared`).

What is known of two values may depend on what the readings have done so far. This is the world of a
comparison, and it only grows.
-/

namespace Quarterly.Formula

/-- Tokens of the same kind with the same text, wherever they stand. -/
def Token.Alike (t t' : Token) : Prop := t.kind = t'.kind ∧ t.text = t'.text

namespace Rule

/-! Parts of rules that deal with values and with no tokens. -/

/-- A value behind a minus sign. -/
def negated (mode : Mode) (v : Value) : Eval Value := do
  let result := negate v
  Eval.noteStep mode (.negation v result)
  return result

/-- A value in front of a percent sign. -/
def percented (mode : Mode) (v : Value) : Eval Value :=
  match v with
  | .number n => do
    let result ← Eval.orNumericFault (percent n)
    Eval.noteStep mode (.percent v result)
    return result
  | _ => return v

/-- Two values with a comparison between them. -/
def comparedTo (mode : Mode) (op : ComparisonOp) (left right : Value) : Eval Value := do
  let result ← Eval.orNumericFault (comparison op left right)
  Eval.noteStep mode (.comparison op left right result)
  return .bool result

/-- What is looked up for a reference with brackets, which is worded as in the formula. -/
def bracketed (mode : Mode) (metric : String) (index : Int) (start stop : Nat) : Eval Value := do
  lookup mode metric index (sliceText (← read).formula start stop)

/-- The complaint about a call of something that is no function. -/
def complain (function : String) (args : List Value) : Eval Unit := do
  Eval.notice (.unknownFunction function)
  Eval.noteStep .live (.unknownCall function args)

/-- A live call of a library function with evaluated arguments. -/
def called (nested : Nested) (scope : Scope) (function : String) (args : List Value) :
    Eval Value := do
  let result ← applyFunction nested scope function args
  Eval.noteStep .live (.call function args result)
  return result

end Rule

/-- A way to compare computations. `Holds w R m n` compares the runs of `m` and `n` from a world on,
and `R` relates their results in the world where they end. -/
structure PairLogic where
  World : Type
  [order : Preorder World]
  Holds : {α β : Type} → World → (World → α → β → Prop) → Eval α → Eval β → Prop
  /-- What is known of two values. -/
  Related : World → Value → Value → Prop
  /-- What is known of two scopes. -/
  Keeps : World → Scope → Scope → Prop
  pure : ∀ {α β : Type} {w R} {a : α} {b : β}, R w a b → Holds w R (pure a) (pure b)
  bind : ∀ {α β γ δ : Type} {w R Q} {m : Eval α} {n : Eval β} {f : α → Eval γ} {g : β → Eval δ},
    Holds w R m n → (∀ w' a b, w ≤ w' → R w' a b → Holds w' Q (f a) (g b)) →
      Holds w Q (m >>= f) (n >>= g)
  fault : ∀ {α β : Type} {w R} {fault : Fault},
    Holds w R (throw fault : Eval α) (throw fault : Eval β)
  malformed : ∀ {α β : Type} {w R problem i j},
    Holds w R (throw (.malformed problem i) : Eval α) (throw (.malformed problem j) : Eval β)
  tokenAt : ∀ {w} i, Holds w (fun _ => Token.Alike) (Eval.tokenAt i) (Eval.tokenAt i)
  tokensLeft : ∀ {w}, Holds w (fun _ => Eq) Eval.tokensLeft Eval.tokensLeft
  position : ∀ {w}, Holds w (fun _ => Eq) Eval.position Eval.position
  setPosition : ∀ {w} i, Holds w (fun _ => Eq) (Eval.setPosition i) (Eval.setPosition i)
  skip : ∀ {w nested nested' scope scope'},
    Holds w Related (nested.expression .dry scope) (nested'.expression .dry scope') →
      Holds w (fun _ => Eq) (Rule.skip nested scope) (Rule.skip nested' scope')
  related_mono : ∀ {w w' u v}, w ≤ w' → Related w u v → Related w' u v
  keeps_mono : ∀ {w w' scope scope'}, w ≤ w' → Keeps w scope scope' → Keeps w' scope scope'
  keeps_cons : ∀ {w scope scope' name u v}, Keeps w scope scope' → Related w u v →
    Keeps w ((name, u) :: scope) ((name, v) :: scope')
  null : ∀ {w}, Related w .null .null
  text : ∀ {w s}, Related w (.text s) (.text s)
  numeral : ∀ {w x}, Related w (.ofFinite (.double x)) (.ofFinite (.double x))
  newArray : ∀ {w items items'}, List.Forall₂ (Related w) items items' →
    Holds w Related (Eval.newArray items) (Eval.newArray items')
  newLambda : ∀ {w f}, Holds w Related (do return .lambda (← Eval.newIdentity) f)
    (do return .lambda (← Eval.newIdentity) f)
  name : ∀ {w mode scope scope' word}, Keeps w scope scope' →
    Holds w Related (Rule.name mode scope word) (Rule.name mode scope' word)
  bracketed : ∀ {w mode metric index i j i' j'}, Holds w Related
    (Rule.bracketed mode metric index i j) (Rule.bracketed mode metric index i' j')
  complain : ∀ {w function args args'}, List.Forall₂ (Related w) args args' →
    Holds w (fun _ => Eq) (Rule.complain function args) (Rule.complain function args')
  negated : ∀ {w mode u v}, Related w u v →
    Holds w Related (Rule.negated mode u) (Rule.negated mode v)
  percented : ∀ {w mode u v}, Related w u v →
    Holds w Related (Rule.percented mode u) (Rule.percented mode v)
  combine : ∀ {w mode op a b a' b'}, Related w a a' → Related w b b' →
    Holds w Related (Rule.combine mode op a b) (Rule.combine mode op a' b')
  comparedTo : ∀ {w mode op a b a' b'}, Related w a a' → Related w b b' →
    Holds w Related (Rule.comparedTo mode op a b) (Rule.comparedTo mode op a' b')

namespace PairLogic

attribute [instance] PairLogic.order

variable (L : PairLogic) {α β γ δ : Type} {w : L.World}

/-- Weaken what is known of the results. -/
theorem mono {R Q : L.World → α → β → Prop} {m : Eval α} {n : Eval β} (h : L.Holds w R m n)
    (imp : ∀ w' a b, w ≤ w' → R w' a b → Q w' a b) : L.Holds w Q m n := by
  rw [← bind_pure m, ← bind_pure n]
  exact L.bind h fun w' a b le hr => L.pure (imp w' a b le hr)

/-- Computations that go on with the same result. -/
theorem after {Q : L.World → γ → δ → Prop} {m n : Eval α} {f : α → Eval γ} {g : α → Eval δ}
    (hm : L.Holds w (fun _ => Eq) m n) (hf : ∀ w' a, w ≤ w' → L.Holds w' Q (f a) (g a)) :
    L.Holds w Q (m >>= f) (n >>= g) := by
  apply L.bind hm
  rintro w' a _ le rfl
  exact hf w' a le

/-- Nothing follows computations that do not come back. -/
theorem stopped {Q : L.World → γ → δ → Prop} {m : Eval α} {n : Eval β} {f : α → Eval γ}
    {g : β → Eval δ} (h : L.Holds w (fun _ _ _ => False) m n) :
    L.Holds w Q (m >>= f) (n >>= g) :=
  L.bind h fun _ _ _ _ never => never.elim

theorem ite {R : L.World → α → β → Prop} {p p' : Prop} [Decidable p] [Decidable p']
    {m n : Eval α} {m' n' : Eval β} (same : p ↔ p') (yes : L.Holds w R m m')
    (no : L.Holds w R n n') : L.Holds w R (if p then m else n) (if p' then m' else n') := by
  simp only [same]
  split
  · exact yes
  · exact no

/-! ### Tokens -/

theorem peek : L.Holds w (fun _ => Token.Alike) Eval.peek Eval.peek :=
  L.after L.position fun _ i _ => L.tokenAt i

theorem advance : L.Holds w (fun _ => Token.Alike) Eval.advance Eval.advance := by
  apply L.bind L.peek
  intro w token token' _ alike
  refine L.ite (by rw [alike.1]) ?_ (L.pure alike)
  apply L.after L.position
  intro w i _
  exact L.after (L.setPosition (i + 1)) fun _ _ _ => L.pure alike

theorem accept (kind : TokenKind) :
    L.Holds w (fun _ => Eq) (Eval.accept kind) (Eval.accept kind) := by
  apply L.bind L.peek
  intro w token token' _ alike
  refine L.ite (by rw [alike.1]) ?_ (L.pure rfl)
  exact L.bind L.advance fun _ _ _ _ _ => L.pure rfl

theorem acceptOperator (symbol : String) :
    L.Holds w (fun _ => Eq) (Eval.acceptOperator symbol) (Eval.acceptOperator symbol) := by
  apply L.bind L.peek
  intro w token token' _ alike
  refine L.ite (by rw [alike.1, alike.2]) ?_ (L.pure rfl)
  exact L.bind L.advance fun _ _ _ _ _ => L.pure rfl

theorem expect (kind : TokenKind) (problem : SyntaxFault) :
    L.Holds w (fun _ => Token.Alike) (Eval.expect kind problem) (Eval.expect kind problem) := by
  apply L.bind L.peek
  intro w token token' _ alike
  exact L.ite (by rw [alike.1]) L.advance L.malformed

theorem operator? {ω : Type} (ofSymbol? : String → Option ω) :
    L.Holds w (fun _ => Eq) (Eval.operator? ofSymbol?) (Eval.operator? ofSymbol?) := by
  apply L.bind L.peek
  intro w token token' _ alike
  apply L.pure
  simp only [alike.1, alike.2]

theorem orFault (x : Except Fault α) :
    L.Holds w (fun _ => Eq) (Eval.orFault x) (Eval.orFault x) := by
  cases x with
  | ok a => exact L.pure rfl
  | error fault => exact L.fault

/-! ### Words without parts -/

theorem number {token token' : Token} (alike : token.Alike token') :
    L.Holds w L.Related (Rule.number token) (Rule.number token') := by
  apply L.bind L.advance
  intro w _ _ _ _
  rw [alike.2]
  apply L.after (L.orFault _)
  intro w x _
  exact L.pure L.numeral

/-- The index in brackets depends on the kind and the text of its token, but for the place of its
fault. -/
theorem quarterIndex {token token' : Token} (alike : token.Alike token') :
    L.Holds w (fun _ => Eq) (Eval.orFault (Rule.quarterIndex token))
      (Eval.orFault (Rule.quarterIndex token')) := by
  obtain ⟨kind, text⟩ := alike
  unfold Rule.quarterIndex
  rw [← kind, ← text]
  cases token.kind with
  | identifier =>
    cases wordIndex? token.text with
    | some n => exact L.pure rfl
    | none => exact L.malformed
  | number => exact L.orFault _
  | _ => exact L.malformed

theorem reference (mode : Mode) {token token' : Token} (alike : token.Alike token') :
    L.Holds w L.Related (Rule.reference mode token) (Rule.reference mode token') := by
  apply L.bind L.advance
  intro w _ _ _ _
  apply L.bind L.peek
  intro w index index' _ same
  apply L.after (L.quarterIndex same)
  intro w k _
  apply L.bind L.advance
  intro w _ _ _ _
  apply L.bind (L.expect _ _)
  intro w closing closing' _ _
  rw [alike.2]
  exact L.bracketed

/-! ### Lists of expressions -/

section

variable {item item' : Eval Value}

theorem moreItems (related : ∀ w', w ≤ w' → L.Holds w' L.Related item item') (rounds : Nat)
    {items items' : Array Value} (same : List.Forall₂ (L.Related w) items.toList items'.toList) :
    L.Holds w (fun w vs vs' => List.Forall₂ (L.Related w) vs.toList vs'.toList)
      (Rule.moreItems item rounds items) (Rule.moreItems item' rounds items') := by
  induction rounds generalizing w items items' with
  | zero => exact L.fault
  | succ rounds ih =>
    apply L.after (L.accept _)
    intro w₁ more le₁
    refine L.ite .rfl ?_ (L.pure (same.imp fun _ _ => L.related_mono le₁))
    apply L.bind (related w₁ le₁)
    intro w₂ u v le₂ last
    have le := le₁.trans le₂
    apply ih fun w' le' => related w' (le.trans le')
    rw [Array.toList_push, Array.toList_push]
    exact List.rel_append (same.imp fun _ _ => L.related_mono le) (.cons last .nil)

theorem items (related : ∀ w', w ≤ w' → L.Holds w' L.Related item item') (closing : TokenKind)
    (problem : SyntaxFault) :
    L.Holds w (fun w => List.Forall₂ (L.Related w)) (Rule.items item closing problem)
      (Rule.items item' closing problem) := by
  have ended {w} {vs vs' : Array Value}
      (same : List.Forall₂ (L.Related w) vs.toList vs'.toList) :
      L.Holds w (fun w => List.Forall₂ (L.Related w))
        (do let _ ← Eval.expect closing problem; return vs.toList)
        (do let _ ← Eval.expect closing problem; return vs'.toList) := by
    apply L.bind (L.expect _ _)
    intro w' _ _ le _
    exact L.pure (same.imp fun _ _ => L.related_mono le)
  apply L.bind L.peek
  intro w₁ token token' le₁ alike
  refine L.ite (by rw [alike.1]) ?_ ?_
  · apply L.bind (L.pure (R := fun _ vs vs' => vs = #[] ∧ vs' = #[]) ⟨rfl, rfl⟩)
    rintro w₂ _ _ _ ⟨rfl, rfl⟩
    exact ended .nil
  · apply L.bind (related w₁ le₁)
    intro w₂ u v le₂ first
    apply L.after L.tokensLeft
    intro w₃ rounds le₃
    have le := (le₁.trans le₂).trans le₃
    have one : List.Forall₂ (L.Related w₃) #[u].toList #[v].toList :=
      .cons (L.related_mono le₃ first) .nil
    apply L.bind (L.moreItems (fun w' le' => related w' (le.trans le')) rounds one)
    intro w₄ vs vs' _ same
    exact ended same

theorem array (related : ∀ w', w ≤ w' → L.Holds w' L.Related item item') :
    L.Holds w L.Related (Rule.array item) (Rule.array item') := by
  apply L.bind L.advance
  intro w₁ _ _ le₁ _
  apply L.bind (L.items (fun w' le' => related w' (le₁.trans le')) _ _)
  intro w₂ vs vs' _ same
  exact L.newArray same

theorem arguments (related : ∀ w', w ≤ w' → L.Holds w' L.Related item item') (function : String) :
    L.Holds w (fun w => List.Forall₂ (L.Related w)) (Rule.arguments item function)
      (Rule.arguments item' function) := by
  apply L.bind (L.expect _ _)
  intro w₁ _ _ le₁ _
  exact L.items (fun w' le' => related w' (le₁.trans le')) _ _

theorem parenthesized (related : ∀ w', w ≤ w' → L.Holds w' L.Related item item') :
    L.Holds w L.Related (Rule.parenthesized item) (Rule.parenthesized item') := by
  apply L.bind L.advance
  intro w₁ _ _ le₁ _
  apply L.bind (related w₁ le₁)
  intro w₂ u v _ inner
  apply L.bind (L.expect _ _)
  intro w₃ _ _ le₃ _
  exact L.pure (L.related_mono le₃ inner)

theorem chain (related : ∀ w', w ≤ w' → L.Holds w' L.Related item item')
    (ops : String → Option ArithmeticOp) (mode : Mode) (rounds : Nat) {a b : Value}
    (left : L.Related w a b) :
    L.Holds w L.Related (Rule.chain item ops mode rounds a)
      (Rule.chain item' ops mode rounds b) := by
  induction rounds generalizing w a b with
  | zero => exact L.fault
  | succ rounds ih =>
    apply L.after (L.operator? _)
    intro w₁ op le₁
    cases op with
    | none => exact L.pure (L.related_mono le₁ left)
    | some op =>
      apply L.bind L.advance
      intro w₂ _ _ le₂ _
      apply L.bind (related w₂ (le₁.trans le₂))
      intro w₃ u v le₃ right
      have le := (le₁.trans le₂).trans le₃
      apply L.bind (L.combine (L.related_mono le left) right)
      intro w₄ u v le₄ result
      exact ih (fun w' le' => related w' ((le.trans le₄).trans le')) result

theorem level (related : ∀ w', w ≤ w' → L.Holds w' L.Related item item')
    (ops : String → Option ArithmeticOp) (mode : Mode) :
    L.Holds w L.Related (Rule.level item ops mode) (Rule.level item' ops mode) := by
  apply L.bind (related w le_rfl)
  intro w₁ u v le₁ left
  apply L.after L.tokensLeft
  intro w₂ rounds le₂
  exact L.chain (fun w' le' => related w' ((le₁.trans le₂).trans le')) ops mode rounds
    (L.related_mono le₂ left)

end

/-! ### Expressions -/

/-- What the rules of an expression may rely on: expressions nested in it compare, and so do live
calls. -/
structure Nests (Admits : Mode → Prop) (nested nested' : Nested) : Prop where
  dry : Admits .dry
  expression : ∀ {w mode scope scope'}, Admits mode → L.Keeps w scope scope' →
    L.Holds w L.Related (nested.expression mode scope) (nested'.expression mode scope')
  called : ∀ {w scope scope' function args args'}, Admits .live → L.Keeps w scope scope' →
    List.Forall₂ (L.Related w) args args' →
    L.Holds w L.Related (Rule.called nested scope function args)
      (Rule.called nested' scope' function args')

namespace Nests

variable {L} {Admits : Mode → Prop} {nested nested' : Nested} (h : L.Nests Admits nested nested')
  {mode : Mode} {scope scope' : Scope} (admits : Admits mode) (keeps : L.Keeps w scope scope')

include h admits keeps

/-- Expressions nested in one that is being read, also later on. -/
theorem later (w' : L.World) (le : w ≤ w') :
    L.Holds w' L.Related (nested.expression mode scope) (nested'.expression mode scope') :=
  h.expression admits (L.keeps_mono le keeps)

theorem call (function : String) :
    L.Holds w L.Related (Rule.call nested mode scope function)
      (Rule.call nested' mode scope' function) := by
  apply L.bind (L.arguments (h.later admits keeps) function)
  intro w₁ args args' le₁ same
  cases mode with
  | dry => exact L.pure L.null
  | live => exact h.called admits (L.keeps_mono le₁ keeps) same

theorem unknownCall (function : String) :
    L.Holds w L.Related (Rule.unknownCall nested mode scope function)
      (Rule.unknownCall nested' mode scope' function) := by
  apply L.bind (L.arguments (h.later admits keeps) function)
  intro w₁ args args' _ same
  cases mode with
  | dry => exact L.pure L.null
  | live =>
    change L.Holds w₁ L.Related (Rule.complain function args >>= fun _ => Pure.pure Value.null)
      (Rule.complain function args' >>= fun _ => Pure.pure Value.null)
    exact L.after (L.complain same) fun _ _ _ => L.pure L.null

theorem bindings (rounds : Nat) :
    L.Holds w L.Keeps (Rule.bindings nested mode rounds scope)
      (Rule.bindings nested' mode rounds scope') := by
  induction rounds generalizing w scope scope' with
  | zero => exact L.fault
  | succ rounds ih =>
    apply L.bind L.peek
    intro w₁ token token' le₁ alike
    refine L.ite (by rw [alike.1]) (L.pure (L.keeps_mono le₁ keeps)) ?_
    apply L.after L.position
    intro w₂ start le₂
    apply L.bind L.advance
    intro w₃ name name' le₃ same
    apply L.after (L.accept _)
    intro w₄ comma le₄
    have le := ((le₁.trans le₂).trans le₃).trans le₄
    refine L.ite .rfl ?_ (L.after (L.setPosition start) fun _ _ le' =>
      L.pure (L.keeps_mono (le.trans le') keeps))
    apply L.bind (h.later admits keeps w₄ le)
    intro w₅ u v le₅ value
    have more : L.Keeps w₅ ((name.text, u) :: scope) ((name'.text, v) :: scope') := by
      rw [same.2]
      exact L.keeps_cons (L.keeps_mono (le.trans le₅) keeps) value
    apply L.bind L.peek
    intro w₆ next next' le₆ alike
    refine L.ite (by rw [alike.1]) (L.pure (L.keeps_mono le₆ more)) ?_
    apply L.after (L.accept _)
    intro w₇ comma le₇
    have more : L.Keeps w₇ ((name.text, u) :: scope) ((name'.text, v) :: scope') :=
      L.keeps_mono (le₆.trans le₇) more
    exact L.ite .rfl (ih more) (L.pure more)

theorem letForm :
    L.Holds w L.Related (Rule.letForm nested mode scope) (Rule.letForm nested' mode scope') := by
  apply L.bind (L.expect _ _)
  intro w₁ _ _ le₁ _
  apply L.after L.tokensLeft
  intro w₂ rounds le₂
  apply L.bind (h.bindings admits (L.keeps_mono (le₁.trans le₂) keeps) rounds)
  intro w₃ scope scope' _ keeps
  apply L.bind (h.expression admits keeps)
  intro w₄ u v _ body
  apply L.bind (L.expect _ _)
  intro w₅ _ _ le₅ _
  exact L.pure (L.related_mono le₅ body)

omit admits in
theorem lambdaForm :
    L.Holds w L.Related (Rule.lambdaForm nested scope) (Rule.lambdaForm nested' scope') := by
  apply L.bind (L.expect _ _)
  intro w₁ _ _ le₁ _
  apply L.bind (L.expect _ _)
  intro w₂ parameter parameter' le₂ same
  apply L.bind (L.expect _ _)
  intro w₃ _ _ le₃ _
  apply L.after L.position
  intro w₄ start le₄
  have le := ((le₁.trans le₂).trans le₃).trans le₄
  apply L.after (L.skip (h.later h.dry keeps w₄ le))
  intro w₅ stop _
  apply L.after (L.setPosition stop)
  intro w₆ _ _
  apply L.bind (L.expect _ _)
  intro w₇ _ _ _ _
  rw [same.2]
  exact L.newLambda

theorem word {token token' : Token} (alike : token.Alike token') :
    L.Holds w L.Related (Rule.word nested mode scope token)
      (Rule.word nested' mode scope' token') := by
  apply L.bind L.advance
  intro w₁ _ _ le₁ _
  apply L.bind L.peek
  intro w₂ next next' le₂ same
  have keeps := L.keeps_mono (le₁.trans le₂) keeps
  rw [same.1]
  split
  · exact L.reference mode alike
  · rw [alike.2]
    exact h.unknownCall admits keeps token'.text
  · rw [alike.2]
    exact L.name keeps

theorem function {token token' : Token} (alike : token.Alike token') :
    L.Holds w L.Related (Rule.function nested mode scope token)
      (Rule.function nested' mode scope' token') := by
  apply L.bind L.advance
  intro w₁ _ _ le₁ _
  have keeps := L.keeps_mono le₁ keeps
  rw [alike.2]
  refine L.ite .rfl (h.letForm admits keeps) ?_
  refine L.ite .rfl (h.lambdaForm keeps) ?_
  exact h.call admits keeps token'.text

theorem primary :
    L.Holds w L.Related (Rule.primary nested mode scope) (Rule.primary nested' mode scope') := by
  apply L.bind L.peek
  intro w₁ token token' le₁ alike
  have keeps := L.keeps_mono le₁ keeps
  rw [alike.1, alike.2]
  split
  · exact L.number alike
  · exact L.bind L.advance fun _ _ _ _ _ => L.pure L.text
  · exact L.array (h.later admits keeps)
  · exact h.word admits keeps alike
  · exact h.function admits keeps alike
  · exact L.parenthesized (h.later admits keeps)
  · exact L.malformed
  · exact L.malformed

theorem postfixed :
    L.Holds w L.Related (Rule.postfixed (Rule.primary nested mode scope) mode)
      (Rule.postfixed (Rule.primary nested' mode scope') mode) := by
  apply L.bind (h.primary admits keeps)
  intro w₁ u v _ value
  apply L.after (L.acceptOperator _)
  intro w₂ sign le₂
  have value := L.related_mono le₂ value
  exact L.ite .rfl (L.percented value) (L.pure value)

theorem signed (rounds : Nat) :
    L.Holds w L.Related (Rule.signed (Rule.primary nested mode scope) mode rounds)
      (Rule.signed (Rule.primary nested' mode scope') mode rounds) := by
  induction rounds generalizing w with
  | zero => exact L.fault
  | succ rounds ih =>
    apply L.after (L.acceptOperator _)
    intro w₁ sign le₁
    have keeps := L.keeps_mono le₁ keeps
    refine L.ite .rfl ?_ (h.postfixed admits keeps)
    apply L.bind (ih keeps)
    intro w₂ u v _ value
    exact L.negated value

theorem unary (w' : L.World) (le : w ≤ w') :
    L.Holds w' L.Related (Rule.unary nested mode scope) (Rule.unary nested' mode scope') := by
  apply L.after L.tokensLeft
  intro w₁ rounds le₁
  exact h.signed admits (L.keeps_mono (le.trans le₁) keeps) rounds

theorem additive (w' : L.World) (le : w ≤ w') :
    L.Holds w' L.Related (Rule.additive nested mode scope) (Rule.additive nested' mode scope') := by
  apply L.level
  intro w₁ le₁
  apply L.level
  intro w₂ le₂
  exact h.unary admits keeps w₂ ((le.trans le₁).trans le₂)

theorem compared :
    L.Holds w L.Related (Rule.compared nested mode scope) (Rule.compared nested' mode scope') := by
  apply L.bind (h.additive admits keeps w le_rfl)
  intro w₁ a b le₁ left
  apply L.after (L.operator? _)
  intro w₂ op le₂
  cases op with
  | none => exact L.pure (L.related_mono le₂ left)
  | some op =>
    apply L.bind L.advance
    intro w₃ _ _ le₃ _
    apply L.bind (h.additive admits keeps w₃ ((le₁.trans le₂).trans le₃))
    intro w₄ a' b' le₄ right
    exact L.comparedTo (L.related_mono ((le₂.trans le₃).trans le₄) left) right

end Nests

end PairLogic

/-! ### Readings with the same values -/

namespace Rule

/-- A live call of a function of the library. -/
def answered (builtin : Builtin) (function : String) (args : List Value) : Eval Value := do
  let result ← (do Eval.ofAnswer (← Eval.orFault (builtin.apply args)))
  Eval.noteStep .live (.call function args result)
  return result

end Rule

/-- Values that are pairwise the same and good. -/
theorem eq_of_forall₂_twins {Good : Value → Prop} {args args' : List Value}
    (same : List.Forall₂ (fun u v => u = v ∧ Good u) args args') :
    args = args' ∧ ∀ v ∈ args, Good v := by
  induction same with
  | nil => exact ⟨rfl, by simp⟩
  | cons first _ ih =>
    obtain ⟨rfl, good⟩ := first
    obtain ⟨rfl, others⟩ := ih
    exact ⟨rfl, List.forall_mem_cons.mpr ⟨good, others⟩⟩

/-- A way to compare evaluations that meet the same values: all that is left to know of two values
is what is known of the one that they are. Then lambdas are called alike, too. -/
structure TwinLogic extends PairLogic where
  Good : World → Value → Prop
  related_iff : ∀ {w u v}, Related w u v ↔ u = v ∧ Good w u
  toItems : ∀ {w v}, Good w v → ∀ u ∈ v.toItems, Good w u
  tooDeep : ∀ {w R}, Holds w R Formula.tooDeep Formula.tooDeep
  elsewhere : ∀ {α β : Type} {w start R} {m : Eval α} {n : Eval β}, Holds w R m n →
    Holds w (fun w' r r' => R w' r.1 r'.1 ∧ r.2 = r'.2) (Eval.elsewhere start m)
      (Eval.elsewhere start n)
  mapped : ∀ {w args result}, Good w result →
    Holds w (fun _ => Eq) (Eval.noteStep .live (.call mapName args result))
      (Eval.noteStep .live (.call mapName args result))
  answered : ∀ {w builtin function args}, Builtin.ofName? function = some builtin →
    (∀ v ∈ args, Good w v) →
      Holds w Related (Rule.answered builtin function args) (Rule.answered builtin function args)

namespace TwinLogic

variable (L : TwinLogic) {w : L.World}

theorem related_of_good {v : Value} (good : L.Good w v) : L.Related w v v :=
  L.related_iff.mpr ⟨rfl, good⟩

/-- Values that are known to be good are the same ones on both sides. -/
theorem same_of_forall₂ {args args' : List Value}
    (same : List.Forall₂ (L.Related w) args args') : args = args' ∧ ∀ v ∈ args, L.Good w v :=
  eq_of_forall₂_twins (same.imp fun _ _ => L.related_iff.mp)

theorem good_mono {w' : L.World} {v : Value} (le : w ≤ w') (good : L.Good w v) : L.Good w' v :=
  (L.related_iff.mp (L.related_mono le (L.related_of_good good))).2

theorem good_getD {args : List Value} (good : ∀ v ∈ args, L.Good w v) (i : Nat) :
    L.Good w (args.getD i .null) := by
  rw [List.getD_eq_getElem?_getD]
  cases h : args[i]? with
  | none => exact (L.related_iff.mp L.null).2
  | some v => exact good v (List.mem_of_getElem? h)

section

variable {nested nested' : Nested}

theorem callLambda {scope scope' : Scope} {f : Lambda} {argument : Value}
    (body : ∀ {w scope scope'}, L.Keeps w scope scope' →
      L.Holds w L.Related (nested.body scope) (nested'.body scope'))
    (keeps : L.Keeps w scope scope') (good : L.Good w argument) :
    L.Holds w L.Related (Rule.callLambda nested scope f argument)
      (Rule.callLambda nested' scope' f argument) := by
  apply L.bind (L.elsewhere (body (L.keeps_cons keeps (L.related_of_good good))))
  rintro w₁ ⟨u, stop⟩ ⟨v, stop'⟩ _ ⟨value, same⟩
  dsimp only at same ⊢
  subst same
  refine L.ite .rfl ?_ (L.pure value)
  apply L.bind (L.tokenAt stop)
  intro w₂ token token' _ _
  exact L.stopped L.malformed

theorem mapLambda {scope scope' : Scope} {f : Lambda} {items : List Value}
    (body : ∀ {w scope scope'}, L.Keeps w scope scope' →
      L.Holds w L.Related (nested.body scope) (nested'.body scope'))
    (keeps : L.Keeps w scope scope') (good : ∀ v ∈ items, L.Good w v) :
    L.Holds w (fun w => List.Forall₂ (L.Related w))
      (items.mapM (Rule.callLambda nested scope f))
      (items.mapM (Rule.callLambda nested' scope' f)) := by
  induction items generalizing w with
  | nil => exact L.pure .nil
  | cons v rest ih =>
    rw [List.mapM_cons, List.mapM_cons]
    apply L.bind (L.callLambda body keeps (good v (by simp)))
    intro w₁ a a' le₁ first
    apply L.bind (ih (L.keeps_mono le₁ keeps) fun u hu => L.good_mono le₁ (good u (by simp [hu])))
    intro w₂ as as' le₂ others
    exact L.pure (.cons (L.related_mono le₂ first) others)

/-- Live calls compare if the bodies of lambdas do. -/
theorem called {scope scope' : Scope} {function : String} {args args' : List Value}
    (body : ∀ {w scope scope'}, L.Keeps w scope scope' →
      L.Holds w L.Related (nested.body scope) (nested'.body scope'))
    (keeps : L.Keeps w scope scope') (same : List.Forall₂ (L.Related w) args args') :
    L.Holds w L.Related (Rule.called nested scope function args)
      (Rule.called nested' scope' function args') := by
  obtain ⟨rfl, good⟩ := L.same_of_forall₂ same
  by_cases map : function = mapName
  · subst map
    have applied : L.Holds w L.Related (Rule.applyFunction nested scope mapName args)
        (Rule.applyFunction nested' scope' mapName args) := by
      unfold Rule.applyFunction
      simp only [if_true]
      cases hm : Library.mapArguments args with
      | error fault => exact L.stopped L.fault
      | ok r =>
        obtain ⟨identity, -, hitems⟩ := Library.mapArguments_eq_ok hm
        have items : ∀ v ∈ r.1, L.Good w v := hitems ▸ L.toItems (L.good_getD good 0)
        apply L.bind (L.mapLambda body keeps items)
        intro w₁ vs vs' _ mapped
        exact L.newArray mapped
    apply L.bind applied
    intro w₁ u v _ result
    obtain ⟨rfl, known⟩ := L.related_iff.mp result
    exact L.after (L.mapped known) fun _ _ le => L.pure (L.related_mono le result)
  · unfold Rule.called Rule.applyFunction
    simp only [if_neg map]
    cases known : Builtin.ofName? function with
    | none => exact L.stopped L.fault
    | some builtin => exact L.answered known good

end

/-- Expressions compare at every depth. -/
theorem expression (depth : Nat) {mode : Mode} {scope scope' : Scope}
    (keeps : L.Keeps w scope scope') :
    L.Holds w L.Related (Formula.expression depth mode scope)
      (Formula.expression depth mode scope') := by
  induction depth using Nat.strongRecOn generalizing w mode scope scope' with
  | ind depth ih =>
    cases depth with
    | zero => exact L.tooDeep
    | succ depth =>
      rw [expression_succ, expression_succ]
      have nests : L.Nests (fun _ => True)
          { expression := Formula.expression depth, body := Formula.expression (depth - 1) .live }
          { expression := Formula.expression depth, body := Formula.expression (depth - 1) .live } := {
        dry := trivial
        expression := fun _ keeps => ih depth (Nat.lt_succ_self _) keeps
        called := fun _ keeps same =>
          L.called (fun keeps => ih (depth - 1) (by omega) keeps) keeps same }
      exact nests.compared trivial keeps

/-- Evaluations compare. -/
theorem readAll (depth : Nat) {mode : Mode} {scope scope' : Scope}
    (keeps : L.Keeps w scope scope') :
    L.Holds w L.Related (Formula.readAll depth mode scope)
      (Formula.readAll depth mode scope') := by
  apply L.bind (L.expression depth keeps)
  intro w₁ u v _ value
  apply L.bind L.peek
  intro w₂ token token' le₂ alike
  rw [alike.1, alike.2]
  refine L.ite .rfl ?_ (L.pure (L.related_mono le₂ value))
  exact L.stopped L.malformed

end TwinLogic

end Quarterly.Formula
