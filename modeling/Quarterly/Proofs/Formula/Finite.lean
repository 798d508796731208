import Quarterly.Proofs.Formula.Guarded
import Quarterly.Proofs.Formula.Observation
import Quarterly.Proofs.Formula.PairLogic
import Quarterly.Proofs.Keyed

/-!
# Where an infinite value can come from

Over a table of finite values an evaluation comes to a finite value, unless it calls one of the
functions that do not check their answers, and the answer of that very call is not finite although
its arguments are. The trace of the evaluation shows the call.
-/

namespace Quarterly

/-- Every value of a table is finite or missing. -/
def Metric.Table.IsFinite (t : Metric.Table Float) : Prop :=
  ∀ row ∈ t.cells, ∀ cell ∈ row.2, ∀ x ∈ cell.2, x.isFinite = true

namespace Metric

/-- Whatever is found in a table is in one of its cells. -/
theorem isFinite_find? {metrics : Keyed (Option Float)} {name : String} {x : Float}
    (finite : ∀ cell ∈ metrics, ∀ x ∈ cell.2, x.isFinite = true)
    (h : find? metrics name = some x) : x.isFinite = true := by
  unfold find? at h
  split at h
  · obtain ⟨cell, mem, same⟩ := Keyed.mem_of_get? ‹_›
    exact finite cell mem x (same.trans h)
  · obtain ⟨cell, mem, same⟩ := Keyed.mem_of_get? (Option.join_eq_some_iff.mp h)
    exact finite cell mem x same

theorem isFinite_resolve {t : Table Float} (finite : t.IsFinite) {name : String} {index : Int}
    {x : Float} (h : (t.resolve name index).value = some x) : x.isFinite = true := by
  have row (quarter : String) : ∀ cell ∈ t.metricsOf quarter, ∀ x ∈ cell.2, x.isFinite = true := by
    unfold Table.metricsOf
    cases found : t.cells.get? quarter with
    | none => simp
    | some metrics =>
      obtain ⟨entry, mem, rfl⟩ := Keyed.mem_of_get? found
      exact finite entry mem
  unfold Table.resolve at h
  split at h
  · cases h
  · dsimp only at h
    split at h
    · cases h
      exact isFinite_find? (row _) ‹_›
    · dsimp only at h
      split at h
      · obtain ⟨name, _, found⟩ := List.exists_of_findSome?_eq_some h
        exact isFinite_find? (row _) found
      · cases h

end Metric

namespace Formula

/-- A call of an unguarded function that answers something infinite for finite arguments. -/
inductive Step.Leaks : Step → Prop where
  | call {builtin : Builtin} {args result} (unguarded : builtin ∈ Builtin.unguarded)
    (finite : ∀ v ∈ args, v.IsFinite) (infinite : ¬ result.IsFinite) :
    Leaks (.call builtin.name args result)

/-- One of the steps in a journal leaks. -/
def Journal.Leaked (j : Journal) : Prop := ∃ step ∈ j.steps, step.Leaks

/-- The same work with its steps noted. -/
def Context.traced (c : Context) : Context := { c with tracing := true }

namespace Journal.Leaked

variable {j : Journal} {c : Context}

theorem stepped {mode : Mode} {step : Step} (h : j.Leaked) : (j.stepped c mode step).Leaked := by
  obtain ⟨leak, mem, leaks⟩ := h
  refine ⟨leak, ?_, leaks⟩
  unfold Journal.stepped
  split
  · exact Array.mem_push_of_mem _ mem
  · exact mem

theorem lookedUp {metric : String} {index : Int} {reference : String} (h : j.Leaked) :
    (j.lookedUp c metric index reference).Leaked := by
  obtain ⟨leak, mem, leaks⟩ := h
  refine ⟨leak, ?_, leaks⟩
  change leak ∈ if c.tracing then j.steps.push _ else j.steps
  split
  · exact Array.mem_push_of_mem _ mem
  · exact mem

end Journal.Leaked

/-! ### Runs -/

/-- A context in which every look-up finds something finite and every step is noted. -/
structure FiniteContext where
  context : Context
  table : context.table.IsFinite
  tracing : context.tracing = true

namespace FiniteContext

variable (f : FiniteContext) {α β γ δ : Type} {leaked : Prop}

/-- Runs that start with a leak behind them, or without one, keep it, and something is known of their
results that depends on whether there has been a leak by then. The second computation only stands
beside the first: nothing is said about its runs. -/
def Leads (leaked : Prop) (R : Prop → α → β → Prop) (m : Eval α) (_ : Eval β) : Prop :=
  ∀ s a s', s.journal.Leaked = leaked → m f.context s = .ok a s' →
    (leaked → s'.journal.Leaked) ∧ ∃ b, R s'.journal.Leaked a b

/-- The value is finite, unless there has been a leak. -/
def Good (leaked : Prop) (v : Value) : Prop := leaked ∨ v.IsFinite

namespace Leads

variable {f}

/-- A computation that comes back from every state in which it starts. -/
theorem of_ok {R : Prop → α → β → Prop} {m : Eval α} {n : Eval β} (a : State → α)
    (next : State → State) (run : ∀ s, m f.context s = .ok (a s) (next s))
    (leak : ∀ s, s.journal.Leaked → (next s).journal.Leaked)
    (h : ∀ s, (s.journal.Leaked = leaked) → ∃ b, R (next s).journal.Leaked (a s) b) :
    f.Leads leaked R m n := by
  rintro s _ _ rfl ok
  rw [run] at ok
  cases ok
  exact ⟨leak s, h s rfl⟩

theorem bind {R : Prop → α → β → Prop} {Q : Prop → γ → δ → Prop} {m : Eval α} {n : Eval β}
    {g : α → Eval γ} {k : β → Eval δ} (hm : f.Leads leaked R m n)
    (hf : ∀ later a b, (leaked → later) → R later a b → f.Leads later Q (g a) (k b)) :
    f.Leads leaked Q (m >>= g) (n >>= k) := by
  rintro s a s' here ok
  obtain ⟨a₁, s₁, first, ok⟩ := (run_bind_eq_ok _ s).mp ok
  obtain ⟨leak, b₁, known⟩ := hm s a₁ s₁ here first
  obtain ⟨leak', known'⟩ := hf _ a₁ b₁ leak known s₁ a s' rfl ok
  exact ⟨fun leaked => leak' (leak leaked), known'⟩

/-- A computation that never comes back with a result. -/
theorem never {R : Prop → α → β → Prop} {m : Eval α} {n : Eval β}
    (h : ∀ s a s', m f.context s ≠ .ok a s') : f.Leads leaked R m n :=
  fun s a s' _ ok => absurd ok (h s a s')

/-- A computation that leaves the journal alone. -/
theorem quiet {R : Prop → α → β → Prop} {m : Eval α} {n : Eval β}
    (h : ∀ s a s', m f.context s = .ok a s' → s'.journal = s.journal ∧ ∃ b, R leaked a b) :
    f.Leads leaked R m n := by
  rintro s a s' rfl ok
  obtain ⟨same, known⟩ := h s a s' ok
  rw [same]
  exact ⟨id, known⟩

theorem pure {R : Prop → α → β → Prop} {a : α} {b : β} (h : R leaked a b) :
    f.Leads leaked R (pure a) (pure b) :=
  quiet fun s _ _ ok => by cases ok; exact ⟨rfl, b, h⟩

theorem noteStep {mode : Mode} {step : Step} :
    f.Leads leaked (fun _ => Eq) (Eval.noteStep mode step) (Eval.noteStep mode step) :=
  of_ok (fun _ => ()) _ (fun s => run_noteStep f.context s mode step) (fun _ leak => leak.stepped)
    fun _ _ => ⟨_, rfl⟩

theorem notice {n : Notice} : f.Leads leaked (fun _ => Eq) (Eval.notice n) (Eval.notice n) :=
  of_ok (fun _ => ()) _ (fun s => run_notice f.context s n) (fun _ leak => leak)
    fun _ _ => ⟨_, rfl⟩

theorem lookup {mode : Mode} {metric : String} {index : Int} {reference : String} :
    f.Leads leaked (fun later u v => u = v ∧ Good later u)
      (Rule.lookup mode metric index reference) (Rule.lookup mode metric index reference) := by
  cases mode with
  | dry =>
    apply of_ok (fun _ => .null) id (fun _ => rfl) (fun _ => id)
    intro s _
    exact ⟨_, rfl, .inr .null⟩
  | live =>
    apply of_ok _ _ (fun s => run_lookup_live f.context s metric index reference)
      (fun _ leak => leak.lookedUp)
    intro s _
    refine ⟨_, rfl, .inr ?_⟩
    unfold lookupValue
    split
    · exact .number (Metric.isFinite_resolve f.table ‹_›)
    · exact .null

/-- A computation on values. -/
theorem orFault {x : Except Fault α} {R : Prop → α → α → Prop}
    (h : ∀ a, x = .ok a → R leaked a a) :
    f.Leads leaked R (Eval.orFault x) (Eval.orFault x) := by
  cases x with
  | ok a => exact pure (h a rfl)
  | error fault => exact never fun s a s' ok => by cases ok

theorem orNumericFault {x : Except NumericFault α} {R : Prop → α → α → Prop}
    (h : ∀ a, x = .ok a → R leaked a a) :
    f.Leads leaked R (Eval.orNumericFault x) (Eval.orNumericFault x) := by
  cases x with
  | ok a => exact pure (h a rfl)
  | error fault => exact never fun s a s' ok => by cases ok

end Leads

/-- What is known of two values: they are one that is finite, unless there has been a leak. -/
def Twins (leaked : Prop) (u v : Value) : Prop := u = v ∧ Good leaked u

theorem Good.items {items : List Value} (h : ∀ v ∈ items, Good leaked v) :
    leaked ∨ ∀ v ∈ items, v.IsFinite := by
  by_cases leak : leaked
  · exact .inl leak
  · exact .inr fun v hv => (h v hv).resolve_left leak

theorem Good.mono {later : Prop} {v : Value} (le : leaked → later) (h : Good leaked v) :
    Good later v := h.imp_left le

namespace Leads

variable {f}

/-- A computation on values whose result is noted. -/
theorem noted {mode : Mode} {x : Except NumericFault α} {step : α → Step} {value : α → Value}
    (h : ∀ a, x = .ok a → Good leaked (value a)) :
    f.Leads leaked Twins
      (do
        let result ← Eval.orNumericFault x
        Eval.noteStep mode (step result)
        return value result)
      (do
        let result ← Eval.orNumericFault x
        Eval.noteStep mode (step result)
        return value result) := by
  apply bind (orNumericFault (R := fun leaked a b => a = b ∧ Good leaked (value a))
    fun a ok => ⟨rfl, h a ok⟩)
  rintro later a _ - ⟨rfl, good⟩
  apply bind noteStep
  rintro later _ _ leak -
  exact pure ⟨rfl, good.mono leak⟩

theorem newArray {items items' : List Value} (h : List.Forall₂ (Twins leaked) items items') :
    f.Leads leaked Twins (Eval.newArray items) (Eval.newArray items') := by
  obtain ⟨rfl, good⟩ := eq_of_forall₂_twins h
  refine quiet fun s v s' ok => ?_
  cases ok
  exact ⟨rfl, _, rfl, (Good.items good).imp_right .array⟩

/-- An unguarded call that answers something infinite is noted, and so it is a leak. -/
theorem answered {builtin : Builtin} {function : String} {args : List Value}
    (named : Builtin.ofName? function = some builtin) (good : ∀ v ∈ args, Good leaked v) :
    f.Leads leaked Twins (Rule.answered builtin function args)
      (Rule.answered builtin function args) := by
  have name : builtin.name = function := by
    have found := List.find?_some named
    simpa using found
  subst name
  have ofAnswer : f.Leads leaked (fun later u v => u = v ∧
      (later ∨ (∀ v ∈ args, v.IsFinite) ∧ (u.IsFinite ∨ builtin ∈ Builtin.unguarded)))
      (do Eval.ofAnswer (← Eval.orFault (builtin.apply args)))
      (do Eval.ofAnswer (← Eval.orFault (builtin.apply args))) := by
    apply bind (orFault (R := fun _ answer answer' => answer = answer' ∧
      builtin.apply args = .ok answer) fun answer h => ⟨rfl, h⟩)
    rintro later answer _ leak ⟨rfl, applied⟩
    have known : later ∨ (∀ v ∈ args, v.IsFinite) ∧
        (answer.IsFinite ∨ builtin ∈ Builtin.unguarded) := by
      refine (Good.items good).imp leak fun finite => ⟨finite, ?_⟩
      by_cases unguarded : builtin ∈ Builtin.unguarded
      · exact .inr unguarded
      · exact .inl (Builtin.isFinite_apply unguarded finite answer applied)
    cases answer with
    | value v =>
      exact pure ⟨rfl, known.imp_right (.imp_right (.imp_left fun finite => finite v List.mem_cons_self))⟩
    | newArray items =>
      refine quiet fun s _ _ ok => ?_
      cases ok
      exact ⟨rfl, _, rfl, known.imp_right (.imp_right (.imp_left .array))⟩
  apply bind ofAnswer
  rintro later result _ leak ⟨rfl, known⟩
  let step : Step := .call builtin.name args result
  apply of_ok (fun _ => result)
    (fun s => { s with journal := s.journal.stepped f.context .live step })
  · intro s
    rw [run_bind, run_noteStep]
    rfl
  · exact fun _ leak => leak.stepped
  · rintro s rfl
    refine ⟨result, rfl, ?_⟩
    rcases known with leaked | ⟨finite, finiteResult | unguarded⟩
    · exact .inl leaked.stepped
    · exact .inr finiteResult
    · by_cases finiteResult : result.IsFinite
      · exact .inr finiteResult
      · refine .inl ⟨step, ?_, .call unguarded finite finiteResult⟩
        unfold Journal.stepped
        rw [if_pos ⟨rfl, f.tracing⟩]
        exact Array.mem_push_self

theorem elsewhere {start : Nat} {R : Prop → α → β → Prop} {m : Eval α} {n : Eval β}
    (h : f.Leads leaked R m n) :
    f.Leads leaked (fun later r r' => R later r.1 r'.1 ∧ r.2 = r'.2) (Eval.elsewhere start m)
      (Eval.elsewhere start n) := by
  rintro s a s' here ok
  unfold Eval.elsewhere at ok
  split at ok
  · rename_i first
    cases ok
    obtain ⟨leak, b, known⟩ := h { s with position := start } _ _ here first
    exact ⟨leak, (b, _), known, rfl⟩
  · cases ok

theorem skip {R : Prop → Value → Value → Prop} {nested nested' : Nested} {scope scope' : Scope}
    (h : f.Leads leaked R (nested.expression .dry scope) (nested'.expression .dry scope')) :
    f.Leads leaked (fun _ => Eq) (Rule.skip nested scope) (Rule.skip nested' scope') := by
  rintro s a s' here ok
  rw [run_skip] at ok
  split at ok
  · rename_i first
    cases ok
    exact ⟨(h _ _ _ here first).1, _, rfl⟩
  · cases ok

end Leads

/-- Evaluations over a table of finite values. -/
def logic : TwinLogic where
  World := Prop
  Holds := f.Leads
  Related := Twins
  Keeps leaked scope scope' := scope = scope' ∧ ∀ binding ∈ scope, Good leaked binding.2
  Good := Good
  pure := .pure
  bind := .bind
  fault := .never fun _ _ _ ok => by cases ok
  malformed := .never fun _ _ _ ok => by cases ok
  tokenAt i := .quiet fun s token s' ok => by
    rw [run_tokenAt] at ok
    split at ok <;> cases ok
    exact ⟨rfl, token, rfl, rfl⟩
  tokensLeft := .quiet fun s _ _ ok => by cases ok; exact ⟨rfl, _, rfl⟩
  position := .quiet fun s _ _ ok => by cases ok; exact ⟨rfl, _, rfl⟩
  setPosition i := .quiet fun s _ _ ok => by cases ok; exact ⟨rfl, _, rfl⟩
  skip := .skip
  related_mono le h := ⟨h.1, h.2.mono le⟩
  keeps_mono le h := ⟨h.1, fun binding mem => (h.2 binding mem).mono le⟩
  keeps_cons := by
    rintro leaked scope _ name u _ ⟨rfl, keeps⟩ ⟨rfl, good⟩
    exact ⟨rfl, List.forall_mem_cons.mpr ⟨good, keeps⟩⟩
  null := ⟨rfl, .inr .null⟩
  text := ⟨rfl, .inr .text⟩
  numeral := ⟨rfl, .inr (.ofFinite _)⟩
  newArray := .newArray
  newLambda := .quiet fun s _ _ ok => by cases ok; exact ⟨rfl, _, rfl, .inr .lambda⟩
  name := by
    rintro leaked mode scope _ word ⟨rfl, keeps⟩
    unfold Rule.name
    cases found : scope.lookup word with
    | some v => exact .pure ⟨rfl, keeps _ (Scope.mem_of_lookup found)⟩
    | none => exact .lookup
  bracketed := fun {_ _ _ _ _ _ _ _} s a s' here ok => Leads.lookup s a s' here ok
  complain := by
    rintro leaked function args args' same
    obtain ⟨rfl, -⟩ := eq_of_forall₂_twins same
    exact .bind .notice fun _ _ _ _ _ => .noteStep
  negated := by
    rintro leaked mode u _ ⟨rfl, good⟩
    apply Leads.bind .noteStep
    rintro later _ _ leak -
    exact .pure ⟨rfl, (good.mono leak).imp_right isFinite_negate⟩
  percented := by
    rintro leaked mode u _ ⟨rfl, good⟩
    cases u with
    | number n =>
      have divided (v : Value) (h : percent n = .ok v) : Good leaked v :=
        good.imp_right fun finite => isFinite_percent finite.of_number h
      exact .noted divided
    | _ => exact .pure ⟨rfl, good⟩
  combine := by
    rintro leaked mode op a b _ _ ⟨rfl, -⟩ ⟨rfl, -⟩
    exact .noted fun v h => .inr (isFinite_arithmetic h)
  comparedTo := by
    rintro leaked mode op a b _ _ ⟨rfl, -⟩ ⟨rfl, -⟩
    exact .noted fun v _ => .inr .bool
  related_iff := .rfl
  toItems good u mem := good.imp_right fun finite => finite.toItems u mem
  tooDeep := .never fun _ _ _ ok => by cases ok
  elsewhere := .elsewhere
  mapped _ := .noteStep
  answered := .answered

end FiniteContext

/-- The value of an evaluation over a table of finite values is finite, in a scope of finite values;
or else a function that does not check its answers was called on finite arguments and its answer was
not finite, which the steps of the evaluation show. -/
theorem evaluate_finite_or_leaks (c : Context) (finite : c.table.IsFinite) (mode : Mode)
    (scope : Scope) (bound : ∀ binding ∈ scope, binding.2.IsFinite) {v : Value}
    (h : (evaluate c mode scope).outcome = .ok v) :
    v.IsFinite ∨ (evaluate c.traced mode scope).journal.Leaked := by
  have quiet : (evaluate c.traced mode scope).outcome = (evaluate c mode scope).outcome := by
    have observed := congrArg Evaluation.outcome (evaluate_quiet c mode scope)
    have traced := congrArg Evaluation.outcome (evaluate_quiet c.traced mode scope)
    exact traced.symm.trans observed
  rw [← quiet, evaluate_eq] at h
  rw [evaluate_eq]
  let f : FiniteContext := ⟨c.traced, finite, rfl⟩
  have leads : f.Leads (State.start scope).journal.Leaked FiniteContext.Twins
      (readAll c.maxDepth.toNat mode scope) (readAll c.maxDepth.toNat mode scope) :=
    f.logic.readAll c.maxDepth.toNat ⟨rfl, fun binding mem => .inr (bound binding mem)⟩
  have ends := leads (State.start scope)
  change (Evaluation.ofEnd (readAll c.maxDepth.toNat mode scope c.traced (.start scope))).outcome =
    .ok v at h
  change v.IsFinite ∨ (Evaluation.ofEnd
    (readAll c.maxDepth.toNat mode scope c.traced (.start scope))).journal.Leaked
  change ∀ a s', _ = _ → readAll c.maxDepth.toNat mode scope c.traced (.start scope) = .ok a s' → _
    at ends
  generalize readAll c.maxDepth.toNat mode scope c.traced (.start scope) = run at h ends ⊢
  cases run with
  | error fault s' => cases h
  | ok a s' =>
    obtain rfl : a = v := by
      cases h
      rfl
    obtain ⟨-, b, -, good⟩ := ends a s' rfl rfl
    exact good.symm

/-- An infinite double. -/
def Value.isInfinite : Value → Bool
  | number (.double x) => x.isInf
  | _ => false

theorem Value.not_isFinite_of_isInfinite {v : Value} (h : v.isInfinite = true) : ¬ v.IsFinite := by
  intro finite
  cases v with
  | number n =>
    cases n with
    | int i => cases h
    | double x =>
      have notInf : x.isInf = false := (Binary64.fits_of_isFinite finite.of_number).isInf
      have inf : x.isInf = true := h
      rw [notInf] at inf
      cases inf
  | _ => cases h

/-- A table in which twice the cash is beyond the doubles and the sales are not. -/
def largeCash : Metric.Table Float :=
  ⟨[("Jun 2024", [("Sales", some 1.5e308), ("Cash", some 1e308)])], ["Jun 2024"], 1⟩

theorem isFinite_largeCash : largeCash.IsFinite := by
  have sales : (1.5e308 : Float).isFinite = true := by decide +kernel
  have cash : (1e308 : Float).isFinite = true := by decide +kernel
  intro row hrow
  obtain rfl := List.mem_singleton.mp hrow
  refine List.forall_mem_cons.mpr ⟨?_, List.forall_mem_singleton.mpr ?_⟩
  · exact fun x hx => Option.some_inj.mp hx ▸ sales
  · exact fun x hx => Option.some_inj.mp hx ▸ cash

/-- The sales, up to the next multiple of the cash. -/
def roundedSales : Context where
  formula := "CEILING(Sales, Cash)".toList
  tokens := (tokenize isFunctionName "CEILING(Sales, Cash)").toArray
  table := largeCash

theorem exists_infinite :
    ∃ v, (evaluate roundedSales .live []).outcome = .ok v ∧ ¬ v.IsFinite := by
  obtain ⟨v, value, infinite⟩ : ∃ v, (evaluate roundedSales .live []).outcome = .ok v ∧
      v.isInfinite = true := Except.exists_ok_of_any (by decide +kernel)
  exact ⟨v, value, Value.not_isFinite_of_isInfinite infinite⟩

/-- All values of the table are finite, but the value of the evaluation is not. -/
theorem infinite_roundedSales : roundedSales.table.IsFinite ∧
    ∃ v, (evaluate roundedSales .live []).outcome = .ok v ∧ ¬ v.IsFinite :=
  ⟨isFinite_largeCash, exists_infinite⟩

/-- The steps show where it comes from. -/
theorem evaluate_finite_or_leaks_roundedSales : roundedSales.table.IsFinite ∧
    (∀ binding ∈ ([] : Scope), binding.2.IsFinite) ∧
      (∃ v, (evaluate roundedSales .live []).outcome = .ok v) ∧
        (evaluate roundedSales.traced .live []).journal.Leaked := by
  have noBinding : ∀ binding ∈ ([] : Scope), binding.2.IsFinite := by simp
  obtain ⟨v, ok, infinite⟩ := exists_infinite
  have leaked := (evaluate_finite_or_leaks roundedSales isFinite_largeCash .live [] noBinding
    ok).resolve_left infinite
  exact ⟨isFinite_largeCash, noBinding, ⟨v, ok⟩, leaked⟩

end Formula

end Quarterly
