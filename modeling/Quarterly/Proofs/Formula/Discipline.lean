import Quarterly.Proofs.Formula.Cursor
import Quarterly.Proofs.Formula.Nesting

/-!
# Runs within the row and their faults

A row that ends with an end mark is never left: every run that starts at one of its tokens ends at
one (`RunsInside`). What can then go wrong while a phrase is read is that no such phrase starts
there, that the limit is too low for it, or that a value cannot be formed. The last kind of fault is
the concern of a `Discipline`: an invariant of the values together with the faults of the
computations on such values. `Discipline.Refuses` says which faults are well founded, and a part
that is refused is a reason to refuse the whole.
-/

namespace Quarterly.Formula

/-- The row ends with its only end mark. -/
structure EndsOnce (tokens : Array Token) : Prop where
  pos : 0 < tokens.size
  mark_iff : ∀ p, kindAt tokens p = some .endMark ↔ p + 1 = tokens.size

/-- Behind a token that is no end mark stands another one. -/
theorem EndsOnce.succ_lt {tokens : Array Token} (ends : EndsOnce tokens) {p : Nat}
    {kind : TokenKind} (h : kindAt tokens p = some kind) (notEnd : kind ≠ .endMark) :
    p + 1 < tokens.size := by
  have inside : p < tokens.size := lt_size_of_kindAt h
  have notLast : p + 1 ≠ tokens.size := by
    rw [ne_eq, ← ends.mark_iff, h, Option.some.injEq]
    exact notEnd
  omega

/-- A result is as wished for, or its fault is allowed. -/
def Meets {ε α : Type} (x : Except ε α) (good : α → Prop) (allows : ε → Prop) : Prop :=
  match x with
  | .ok a => good a
  | .error fault => allows fault

/-! ### Runs within the row -/

/-- What holds of the runs that start at a token of the row: they end at one. -/
def RunsInside (tokens : Array Token) (faults : Fault → Prop) {α : Type} (p : Nat)
    (Q : α → Nat → Prop) (m : Eval α) : Prop :=
  p < tokens.size → Runs tokens faults p (fun a q => q < tokens.size ∧ Q a q) m

namespace RunsInside

variable {tokens : Array Token} {faults : Fault → Prop} {α β : Type} {p : Nat}

theorem pure {Q : α → Nat → Prop} {a : α} (h : Q a p) :
    RunsInside tokens faults p Q (pure a) := by
  rintro inside c s hc rfl
  exact ⟨inside, h⟩

theorem fault {Q : α → Nat → Prop} {fault : Fault} (h : faults fault) :
    RunsInside tokens faults p Q (throw fault : Eval α) :=
  fun _ _ _ _ _ => h

theorem bind {R : α → Nat → Prop} {Q : β → Nat → Prop} {m : Eval α} {f : α → Eval β}
    (hm : RunsInside tokens faults p R m)
    (hf : ∀ a q, R a q → RunsInside tokens faults q Q (f a)) :
    RunsInside tokens faults p Q (m >>= f) :=
  fun inside => Runs.bind (hm inside) fun a q h => hf a q h.2 h.1

/-- Weaken what is known of the result. -/
theorem mono {R Q : α → Nat → Prop} {m : Eval α} (h : RunsInside tokens faults p R m)
    (imp : ∀ a q, R a q → Q a q) : RunsInside tokens faults p Q m := by
  rw [← bind_pure m]
  exact bind h fun a q hr => pure (imp a q hr)

/-- Weaken what is known of the faults. -/
theorem excuse {faults' : Fault → Prop} {Q : α → Nat → Prop} {m : Eval α}
    (h : RunsInside tokens faults p Q m) (imp : ∀ fault, faults fault → faults' fault) :
    RunsInside tokens faults' p Q m := by
  intro inside c s hc hs
  have run := h inside c s hc hs
  cases hr : m c s with
  | ok a s' =>
    rw [hr] at run
    exact run
  | error fault s' =>
    rw [hr] at run
    exact imp fault run

theorem ite {Q : α → Nat → Prop} {c : Prop} [Decidable c] {m n : Eval α}
    (yes : c → RunsInside tokens faults p Q m) (no : ¬ c → RunsInside tokens faults p Q n) :
    RunsInside tokens faults p Q (if c then m else n) := by
  split
  · exact yes ‹_›
  · exact no ‹_›

/-- Rounds that suffice for all tokens cannot run out at a token. -/
theorem noRounds {Q : α → Nat → Prop} {m : Eval α} (rounds : tokens.size ≤ p + 0) :
    RunsInside tokens faults p Q m :=
  fun inside => absurd inside (Nat.not_lt.mpr rounds)

/-! The primitives. -/

theorem position : RunsInside tokens faults p (fun i q => i = p ∧ q = p) Eval.position := by
  rintro inside c s hc rfl
  exact ⟨inside, rfl, rfl⟩

theorem tokensLeft : RunsInside tokens faults p
    (fun rounds q => tokens.size ≤ p + rounds ∧ q = p) Eval.tokensLeft := by
  rintro inside c s rfl rfl
  refine ⟨inside, ?_, rfl⟩
  omega

theorem setPosition {q : Nat} (inside : q < tokens.size) :
    RunsInside tokens faults p (fun _ r => r = q) (Eval.setPosition q) :=
  fun _ _ _ _ _ => ⟨inside, rfl⟩

theorem newIdentity : RunsInside tokens faults p (fun _ q => q = p) Eval.newIdentity := by
  rintro inside c s hc rfl
  exact ⟨inside, rfl⟩

theorem noteStep {mode : Mode} {step : Step} :
    RunsInside tokens faults p (fun _ q => q = p) (Eval.noteStep mode step) := by
  rintro inside c s hc rfl
  rw [run_noteStep]
  exact ⟨inside, rfl⟩

theorem notice {n : Notice} :
    RunsInside tokens faults p (fun _ q => q = p) (Eval.notice n) := by
  rintro inside c s hc rfl
  exact ⟨inside, rfl⟩

theorem formula {Q : α → Nat → Prop} {f : List Char → Eval α}
    (h : ∀ formula, RunsInside tokens faults p Q (f formula)) :
    RunsInside tokens faults p Q (do f (← read).formula) :=
  fun inside c s hc hs => h c.formula inside c s hc hs

theorem lookup {Q : Value → Nat → Prop} {mode : Mode} {metric reference : String} {index : Int}
    (dry : mode = .dry → Q .null p) (live : mode = .live → ∀ found, Q (lookupValue found) p) :
    RunsInside tokens faults p Q (Rule.lookup mode metric index reference) := by
  rintro inside c s hc rfl
  cases mode with
  | live =>
    rw [run_lookup_live]
    exact ⟨inside, live rfl _⟩
  | dry => exact ⟨inside, dry rfl⟩

theorem elsewhere {start : Nat} {R : α → Nat → Prop} {inner : Eval α}
    (start_lt : start < tokens.size) (hi : RunsInside tokens faults start R inner) :
    RunsInside tokens faults p (fun r q => R r.1 r.2 ∧ r.2 < tokens.size ∧ q = p)
      (Eval.elsewhere start inner) :=
  fun inside => Runs.elsewhere (hi start_lt) fun _ _ h => ⟨inside, h.2, h.1, rfl⟩

theorem skip {R : Value → Nat → Prop} {nested : Nested} {scope : Scope}
    (hd : RunsInside tokens faults p R (nested.expression .dry scope)) :
    RunsInside tokens faults p (fun stop q => (∃ v, R v stop) ∧ stop < tokens.size ∧ q = p)
      (Rule.skip nested scope) :=
  fun inside => Runs.skip (hd inside) fun v _ h => ⟨inside, ⟨v, h.2⟩, h.1, rfl⟩

theorem peek : RunsInside tokens faults p (fun token q => tokens[p]? = some token ∧ q = p)
    Eval.peek := by
  refine bind position ?_
  rintro _ p ⟨rfl, rfl⟩ inside c s rfl rfl
  rw [run_tokenAt, Array.getElem?_eq_getElem inside]
  exact ⟨inside, rfl, rfl⟩

theorem operator? {γ : Type} {ofSymbol? : String → Option γ} :
    RunsInside tokens faults p (fun op q => op = (operatorAt tokens p).bind ofSymbol? ∧ q = p)
      (Eval.operator? ofSymbol?) := by
  refine bind peek ?_
  rintro token p ⟨ht, rfl⟩
  refine pure ⟨?_, rfl⟩
  by_cases hk : token.kind = .operator <;> simp [operatorAt, ht, hk]

theorem orFault {x : Except Fault α} {good : α → Prop} (h : Meets x good faults) :
    RunsInside tokens faults p (fun a q => good a ∧ q = p) (Eval.orFault x) := by
  cases x with
  | ok a => exact pure ⟨h, rfl⟩
  | error fault => exact RunsInside.fault h

theorem orNumericFault {x : Except NumericFault α} {good : α → Prop}
    (h : Meets x good fun cause => faults (.numeric cause)) :
    RunsInside tokens faults p (fun a q => good a ∧ q = p) (Eval.orNumericFault x) := by
  cases x with
  | ok a => exact pure ⟨h, rfl⟩
  | error cause => exact RunsInside.fault h

section

variable (ends : EndsOnce tokens)

include ends

theorem advance {kind : TokenKind} (h : kindAt tokens p = some kind) (notEnd : kind ≠ .endMark) :
    RunsInside tokens faults p (fun token q => tokens[p]? = some token ∧ q = p + 1)
      Eval.advance := by
  refine bind peek ?_
  rintro token p ⟨ht, rfl⟩
  have hk : token.kind ≠ .endMark := by
    rw [kindAt, ht] at h
    grind
  simp only [if_pos hk]
  refine bind position ?_
  rintro _ p ⟨rfl, rfl⟩
  refine bind (setPosition (ends.succ_lt h notEnd)) ?_
  rintro _ _ rfl
  exact pure ⟨ht, rfl⟩

theorem accept {kind : TokenKind} (notEnd : kind ≠ .endMark) :
    RunsInside tokens faults p (fun found q =>
      found = true ∧ kindAt tokens p = some kind ∧ q = p + 1 ∨
        found = false ∧ kindAt tokens p ≠ some kind ∧ q = p) (Eval.accept kind) := by
  refine bind peek ?_
  rintro token p ⟨ht, rfl⟩
  refine ite (fun hk => ?_) fun hk => pure (.inr ⟨rfl, ?_, rfl⟩)
  · have hp : kindAt tokens p = some kind := by simp [kindAt, ht, hk]
    refine bind (advance ends hp notEnd) ?_
    exact fun _ _ hq => pure (.inl ⟨rfl, hp, hq.2⟩)
  · simp [kindAt, ht, hk]

theorem acceptOperator {symbol : String} :
    RunsInside tokens faults p (fun found q =>
      found = true ∧ operatorAt tokens p = some symbol ∧ q = p + 1 ∨
        found = false ∧ operatorAt tokens p ≠ some symbol ∧ q = p)
      (Eval.acceptOperator symbol) := by
  refine bind peek ?_
  rintro token p ⟨ht, rfl⟩
  refine ite (fun hk => ?_) fun hk => pure (.inr ⟨rfl, ?_, rfl⟩)
  · have hp : operatorAt tokens p = some symbol := by simp [operatorAt, ht, hk]
    refine bind (advance ends (kindAt_of_operatorAt hp) (by decide)) ?_
    exact fun _ _ hq => pure (.inl ⟨rfl, hp, hq.2⟩)
  · simpa [operatorAt, ht] using hk

theorem expect {kind : TokenKind} {problem : SyntaxFault} (notEnd : kind ≠ .endMark)
    (missing : kindAt tokens p ≠ some kind → ∀ position, faults (.malformed problem position)) :
    RunsInside tokens faults p (fun _ q => kindAt tokens p = some kind ∧ q = p + 1)
      (Eval.expect kind problem) := by
  refine bind peek ?_
  rintro token p ⟨ht, rfl⟩
  refine ite (fun hk => ?_) fun hk => fault (missing ?_ _)
  · have hp : kindAt tokens p = some kind := by simp [kindAt, ht, hk]
    exact mono (advance ends hp notEnd) fun _ _ hq => ⟨hp, hq.2⟩
  · simp [kindAt, ht, hk]

end

end RunsInside

/-! ### Disciplines -/

/-- An invariant of the values that are met while a row of tokens is read, and the faults of the
computations on such values. -/
structure Discipline (tokens : Array Token) where
  /-- The modes in which values are met. -/
  Admits : Mode → Prop
  Good : Value → Prop
  Allows : Fault → Prop
  dry : Admits .dry
  /-- Computations on values do not blame the tokens. -/
  ordinary : ∀ {fault}, Allows fault → ∀ problem position, fault ≠ .malformed problem position
  null : Good .null
  bool : ∀ b, Good (.bool b)
  text : ∀ s, Good (.text s)
  array : ∀ {identity items}, (∀ v ∈ items, Good v) → Good (.array identity items)
  lambda : ∀ {n p q identity parameter}, ReadsWithin tokens n .expression p q →
    Good (.lambda identity ⟨parameter, p, q⟩)
  numeral : ∀ {p : Nat} {token : Token}, tokens[p]? = some token → token.kind = .number →
    Meets (numeralValue token.text) (fun x => Good (.ofFinite (.double x))) Allows
  index : ∀ {p : Nat} {token : Token}, kindAt tokens p = some .leftBracket →
    tokens[p + 1]? = some token → token.kind = .number →
      Meets (Rule.quarterIndex token) (fun _ => True) Allows
  arithmetic : ∀ {op a b}, Good a → Good b →
    Meets (arithmetic op a b) Good fun cause => Allows (.numeric cause)
  comparison : ∀ {op a b}, Good a → Good b →
    Meets (comparison op a b) (fun _ => True) fun cause => Allows (.numeric cause)
  negate : ∀ {v}, Good v → Good (negate v)
  percent : ∀ {n}, Good (.number n) → Meets (percent n) Good fun cause => Allows (.numeric cause)
  found : Admits .live → ∀ found, Good (lookupValue found)
  tooDeep : Admits .live → ∀ limit, Allows (.tooDeep limit)
  notInLibrary : Admits .live → ∀ name, Allows (.notInLibrary name)
  builtin : Admits .live → ∀ {builtin : Builtin} {args}, (∀ v ∈ args, Good v) →
    Meets (builtin.apply args) (fun answer => ∀ v ∈ answer.values, Good v) Allows
  mapping : Admits .live → ∀ {args}, (∀ v ∈ args, Good v) →
    Meets (Library.mapArguments args) (fun r => (∀ v ∈ r.1, Good v) ∧
      ∃ n, ReadsWithin tokens n .expression r.2.start r.2.stop) Allows

namespace Discipline

variable {tokens : Array Token} (D : Discipline tokens)

/-- The reasons to refuse a phrase that at most `n` expressions deep may go. -/
def Refuses (n : Nat) (phrase : Phrase) (p : Nat) : Fault → Prop
  | .malformed _ _ => ∀ k, ¬ Readable tokens k phrase p
  | .tooDeep limit => D.Allows (.tooDeep limit) ∨
    ¬ Readable tokens n phrase p ∧ ∃ i, openAt tokens p + n ≤ openAt tokens i
  | fault => D.Allows fault

/-- A phrase was read and its value is good. -/
def Yields (n : Nat) (phrase : Phrase) (p : Nat) (v : Value) (q : Nat) : Prop :=
  ReadsWithin tokens n phrase p q ∧ D.Good v

/-- A phrase was read and its values are good. -/
def YieldsAll (n : Nat) (phrase : Phrase) (p : Nat) (vs : List Value) (q : Nat) : Prop :=
  ReadsWithin tokens n phrase p q ∧ ∀ v ∈ vs, D.Good v

/-- A reading finds out whether a phrase starts at a position. -/
def Decides (n : Nat) (phrase : Phrase) (p : Nat) (m : Eval Value) : Prop :=
  RunsInside tokens (D.Refuses n phrase p) p (D.Yields n phrase p) m

/-- The values in scope are good. -/
def Keeps (scope : Scope) : Prop := ∀ binding ∈ scope, D.Good binding.2

variable {D} {n m p q : Nat} {phrase part : Phrase} {fault : Fault}

theorem Keeps.nil : D.Keeps [] := List.forall_mem_nil _

theorem Keeps.cons {name : String} {v : Value} {scope : Scope} (h : D.Keeps scope)
    (hv : D.Good v) : D.Keeps ((name, v) :: scope) :=
  List.forall_mem_cons.mpr ⟨hv, h⟩

theorem Keeps.lookup {name : String} {v : Value} {scope : Scope} (h : D.Keeps scope)
    (hv : scope.lookup name = some v) : D.Good v :=
  h _ (Scope.mem_of_lookup hv)

theorem refuses_of_allows (h : D.Allows fault) : D.Refuses n phrase p fault := by
  cases fault with
  | malformed problem position => exact absurd rfl (D.ordinary h problem position)
  | tooDeep limit => exact .inl h
  | _ => exact h

/-- A part that must be there at the same depth. -/
theorem Refuses.of_part (h : D.Refuses n part q fault)
    (needs : ∀ k, Readable tokens k phrase p → Readable tokens k part q)
    (level : openAt tokens q = openAt tokens p) : D.Refuses n phrase p fault := by
  cases fault with
  | malformed problem position => exact fun k hk => h k (needs k hk)
  | tooDeep limit =>
    refine h.imp_right ?_
    rintro ⟨unreadable, i, hi⟩
    exact ⟨fun hk => unreadable (needs n hk), i, level ▸ hi⟩
  | _ => exact h

/-- A part that must be there one expression deeper. -/
theorem Refuses.of_nested (h : D.Refuses n part q fault)
    (needs : ∀ k, Readable tokens k phrase p → ∃ j, k = j + 1 ∧ Readable tokens j part q)
    (level : openAt tokens q = openAt tokens p + 1) : D.Refuses (n + 1) phrase p fault := by
  cases fault with
  | malformed problem position =>
    intro k hk
    obtain ⟨j, _, hj⟩ := needs k hk
    exact h j hj
  | tooDeep limit =>
    refine h.imp_right ?_
    rintro ⟨unreadable, i, hi⟩
    refine ⟨fun hk => ?_, i, by omega⟩
    obtain ⟨j, hn, hj⟩ := needs _ hk
    cases hn
    exact unreadable hj
  | _ => exact h

/-- Whatever goes wrong where a phrase is known to be, the tokens are not to blame. -/
theorem Refuses.allows (h : D.Refuses n phrase p fault) (live : D.Admits .live)
    (readable : Readable tokens m phrase p) : D.Allows fault := by
  cases fault with
  | malformed problem position => exact absurd readable (h m)
  | tooDeep limit => exact D.tooDeep live limit
  | _ => exact h

end Discipline

end Quarterly.Formula
