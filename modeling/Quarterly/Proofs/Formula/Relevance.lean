import Quarterly.Evaluator
import Quarterly.Proofs.Formula.Cursor
import Quarterly.Proofs.Metric.Scan

/-!
# The reported quarters are complete

An evaluation reads its table by look-ups alone, and every look-up that selects a quarter notes it.
So the noted quarters hold everything that an evaluation knows of the table: on a table that agrees
with the first one at these quarters the evaluation takes the same course, to the same value or
the same fault.
-/

namespace Quarterly.Metric.Table

variable {α : Type} {t u : Table α}

/-- The same quarters under the same indices. -/
structure SameWindow (t u : Table α) : Prop where
  quarters : u.quarters = t.quarters
  windowSize : u.windowSize = t.windowSize

/-- The same metrics of a quarter. -/
def AgreeAt (t u : Table α) (quarter : String) : Prop :=
  ∀ name, (u.metricsOf quarter).get? name = (t.metricsOf quarter).get? name

theorem SameWindow.quarterAt? (h : SameWindow t u) (index : Int) :
    u.quarterAt? index = t.quarterAt? index := by
  unfold Table.quarterAt?
  rw [h.quarters, h.windowSize]

theorem AgreeAt.find? {quarter : String} (h : AgreeAt t u quarter) :
    Metric.find? (u.metricsOf quarter) = Metric.find? (t.metricsOf quarter) := by
  funext name
  unfold Metric.find?
  rw [h name, h (normalizeKey name)]

/-- A look-up depends on the window and the metrics of the quarter that is selected. -/
theorem resolve_congr {name : String} {index : Int} (window : SameWindow t u)
    (agree : ∀ quarter, (t.resolve name index).quarter = some quarter → AgreeAt t u quarter) :
    u.resolve name index = t.resolve name index := by
  rw [quarter_resolve] at agree
  exact resolve_congr_of_find? (window.quarterAt? index)
    (fun quarter selected => (agree quarter selected).find?) name

end Quarterly.Metric.Table

namespace Quarterly.Formula

open Quarterly.Metric (Table)

/-- The same work on another table. -/
def Context.on (c : Context) (table : Table Float) : Context := { c with table }

/-- A table agrees with that of a context at the quarters noted up to a state. -/
def AgreesUpTo (c : Context) (table : Table Float) (s : State) : Prop :=
  ∀ quarter ∈ c.table.quarters, quarter ∈ s.journal.referenced → c.table.AgreeAt table quarter

/-- Runs that start at a token note what they look at: a table that agrees as far as they note
makes for the same run, and what was noted stays. -/
def Noted (c : Context) (table : Table Float) {α : Type} (p : Nat) (Q : α → Nat → Prop)
    (m : Eval α) : Prop :=
  ∀ s : State, s.position = p →
    (AgreesUpTo c table (endState (m c s)) → AgreesUpTo c table s ∧ m (c.on table) s = m c s) ∧
    ∀ a s', m c s = .ok a s' → Q a s'.position

namespace Noted

variable {c : Context} {table : Table Float} {α β : Type} {p : Nat}

/-- A computation that comes back from every state and uses no table. -/
theorem of_ok {Q : α → Nat → Prop} {m : Eval α} (a : State → α) (next : State → State)
    (run : ∀ s, m c s = .ok (a s) (next s)) (same : ∀ s, m (c.on table) s = .ok (a s) (next s))
    (notes : ∀ s : State, (next s).journal.referenced = s.journal.referenced)
    (h : ∀ s, s.position = p → Q (a s) (next s).position) : Noted c table p Q m := by
  intro s hs
  rw [run, same]
  refine ⟨fun agree => ⟨?_, rfl⟩, ?_⟩
  · intro quarter hw hq
    exact agree quarter hw ((notes s).symm ▸ hq)
  · intro b s' hb
    cases hb
    exact h s hs

theorem throw {Q : α → Nat → Prop} {fault : Fault} : Noted c table p Q (throw fault : Eval α) :=
  fun _ _ => ⟨fun agree => ⟨agree, rfl⟩, fun _ _ h => by cases h⟩

theorem bind {R : α → Nat → Prop} {Q : β → Nat → Prop} {m : Eval α} {f : α → Eval β}
    (hm : Noted c table p R m) (hf : ∀ a q, R a q → Noted c table q Q (f a)) :
    Noted c table p Q (m >>= f) := by
  intro s hs
  obtain ⟨same, ends⟩ := hm s hs
  rw [run_bind, run_bind]
  cases h : m c s with
  | ok a s' =>
    rw [h] at same
    obtain ⟨rest, restEnds⟩ := hf a s'.position (ends a s' h) s' rfl
    refine ⟨fun agree => ?_, restEnds⟩
    obtain ⟨agree', hrest⟩ := rest agree
    obtain ⟨agreeStart, hm'⟩ := same agree'
    rw [hm']
    exact ⟨agreeStart, hrest⟩
  | error fault s' =>
    rw [h] at same
    refine ⟨fun agree => ?_, fun b s'' hb => by cases hb⟩
    obtain ⟨agreeStart, hm'⟩ := same agree
    rw [hm']
    exact ⟨agreeStart, rfl⟩

theorem tokenAt {i : Nat} {Q : Token → Nat → Prop}
    (h : ∀ token, c.tokens[i]? = some token → Q token p) :
    Noted c table p Q (Eval.tokenAt i) := by
  rintro s rfl
  have same : (c.on table).tokens = c.tokens := rfl
  rw [run_tokenAt, run_tokenAt, same]
  cases ht : c.tokens[i]? with
  | none => exact ⟨fun agree => ⟨agree, rfl⟩, fun a s' h => by cases h⟩
  | some token =>
    refine ⟨fun agree => ⟨agree, rfl⟩, fun a s' hr => ?_⟩
    cases hr
    exact h token ht

theorem lookup {P : Lambda → Prop} {Q : Value → Nat → Prop} {mode : Mode} {metric : String}
    {index : Int} {reference : String} (window : c.table.SameWindow table)
    (h : ∀ v : Value, v.EveryLambda P → Q v p) :
    Noted c table p Q (Rule.lookup mode metric index reference) := by
  cases mode with
  | dry =>
    refine of_ok (fun _ => .null) id (fun _ => rfl) (fun _ => rfl) (fun _ => rfl) ?_
    rintro s rfl
    exact h _ (.scalar trivial)
  | live =>
    rintro s rfl
    rw [run_lookup_live, run_lookup_live]
    refine ⟨fun agree => ?_, fun a s' hr => ?_⟩
    · have agreeAt : ∀ quarter, (c.table.resolve metric index).quarter = some quarter →
          c.table.AgreeAt table quarter := by
        intro quarter hq
        have inWindow : quarter ∈ c.table.quarters :=
          Table.mem_of_quarterAt? (Table.quarter_resolve c.table metric index ▸ hq)
        exact agree quarter inWindow ((Journal.mem_referenced_lookedUp ..).mpr (.inr hq))
      have same : (c.on table).table.resolve metric index = c.table.resolve metric index :=
        Table.resolve_congr window agreeAt
      refine ⟨fun quarter hw hq =>
        agree quarter hw ((Journal.mem_referenced_lookedUp ..).mpr (.inl hq)), ?_⟩
      unfold Journal.lookedUp
      rw [same]
      rfl
    · cases hr
      exact h _ (.scalar (isScalar_lookupValue _))

theorem elsewhere {start : Nat} {R : α → Nat → Prop} {Q : α × Nat → Nat → Prop}
    {inner : Eval α} (hi : Noted c table start R inner)
    (h : ∀ a stop, R a stop → Q (a, stop) p) :
    Noted c table p Q (Eval.elsewhere start inner) := by
  rintro s rfl
  obtain ⟨same, ends⟩ := hi { s with position := start } rfl
  unfold Eval.elsewhere
  cases hr : inner c { s with position := start } with
  | ok a s' =>
    rw [hr] at same
    refine ⟨fun agree => ?_, fun b s'' hb => ?_⟩
    · obtain ⟨agreeStart, hi'⟩ := same agree
      rw [hi']
      exact ⟨agreeStart, rfl⟩
    · cases hb
      exact h a s'.position (ends a s' hr)
  | error fault s' =>
    rw [hr] at same
    refine ⟨fun agree => ?_, fun b s'' hb => by cases hb⟩
    obtain ⟨agreeStart, hi'⟩ := same agree
    rw [hi']
    exact ⟨agreeStart, rfl⟩

theorem skip {R : Value → Nat → Prop} {Q : Nat → Nat → Prop} {nested : Nested} {scope : Scope}
    (hd : Noted c table p R (nested.expression .dry scope))
    (h : ∀ v stop, R v stop → Q stop p) : Noted c table p Q (Rule.skip nested scope) := by
  rintro s rfl
  obtain ⟨same, ends⟩ := hd s rfl
  rw [run_skip, run_skip]
  cases hr : nested.expression .dry scope c s with
  | ok v s' =>
    rw [hr] at same
    refine ⟨fun agree => ?_, fun b s'' hb => ?_⟩
    · obtain ⟨agreeStart, hd'⟩ := same agree
      rw [hd']
      exact ⟨agreeStart, rfl⟩
    · cases hb
      exact h v s'.position (ends v s' hr)
  | error fault s' =>
    rw [hr] at same
    refine ⟨fun agree => ?_, fun b s'' hb => by cases hb⟩
    obtain ⟨agreeStart, hd'⟩ := same agree
    rw [hd']
    exact ⟨agreeStart, rfl⟩

/-- Readings of two tables with the same window. -/
def logic (window : c.table.SameWindow table) : ReadingLogic c.tokens fun _ => True where
  Admits := fun _ => True
  Holds := Noted c table
  dry := trivial
  pure h := of_ok (fun _ => _) id (fun _ => rfl) (fun _ => rfl) (fun _ => rfl) fun _ hs => hs ▸ h
  bind := bind
  fault _ := throw
  tooDeep := fun _ _ => ⟨fun agree => ⟨agree, rfl⟩, fun _ _ h => by cases h⟩
  tokenAt := tokenAt
  tokensLeft h := of_ok (fun s => c.tokens.size - s.position) id (fun _ => rfl) (fun _ => rfl)
    (fun _ => rfl) fun _ hs => hs ▸ h _
  position h := of_ok State.position id (fun _ => rfl) (fun _ => rfl) (fun _ => rfl)
    fun _ hs => hs ▸ h
  formula h := fun s hs => h c.formula s hs
  setPosition h := of_ok (fun _ => ()) _ (fun _ => rfl) (fun _ => rfl) (fun _ => rfl) fun _ _ => h
  newIdentity h := of_ok State.nextIdentity _ (fun _ => rfl) (fun _ => rfl) (fun _ => rfl)
    fun _ hs => hs ▸ h _
  noteStep {p Q mode step} _ _ h := by
    refine of_ok (fun _ => ()) _ (fun s => run_noteStep c s mode step)
      (fun s => run_noteStep (c.on table) s mode step) (fun s => ?_) fun _ hs => hs ▸ h
    unfold Journal.stepped
    split <;> rfl
  noticeUnknown _ h := of_ok (fun _ => ()) _ (fun _ => rfl) (fun _ => rfl) (fun _ => rfl)
    fun _ hs => hs ▸ h
  lookup _ := lookup window
  elsewhere := elsewhere
  skip := skip
  made _ := trivial
  mismatch _ _ _ := throw

end Noted

/-- An evaluation knows of its table what it noted. -/
theorem evaluate_on {c : Context} {table : Table Float} (window : c.table.SameWindow table)
    {mode : Mode} (agree : ∀ quarter ∈ c.table.quarters,
      quarter ∈ (evaluate c mode []).journal.referenced → c.table.AgreeAt table quarter) :
    evaluate (c.on table) mode [] = evaluate c mode [] := by
  have run : Noted c table 0 ((Noted.logic window).Yields .expression 0)
      (readAll c.maxDepth.toNat mode []) := (Noted.logic window).readAll trivial .nil
  obtain ⟨same, -⟩ := run (.start []) rfl
  rw [journal_evaluate] at agree
  rw [evaluate_eq, evaluate_eq]
  change Evaluation.ofEnd (readAll c.maxDepth.toNat mode [] (c.on table) (.start [])) = _
  rw [(same agree).2]

end Quarterly.Formula

namespace Quarterly

theorem Evaluator.context_on (e : Evaluator) (table : Metric.Table Float) (formula : List Char) :
    ({ e with table } : Evaluator).context formula = (e.context formula).on table := rfl

theorem Evaluator.mem_referenced (e : Evaluator) (formula : String) (run : Formula.Evaluation)
    (quarter : String) : quarter ∈ (e.report formula run).referenced ↔
      quarter ∈ e.table.quarters ∧ quarter ∈ run.journal.referenced := by
  simp [report]

/-- A report uses nothing of the table but the window. -/
theorem Evaluator.report_on (e : Evaluator) {table : Metric.Table Float}
    (window : e.table.SameWindow table) (formula : String) (run : Formula.Evaluation) :
    ({ e with table } : Evaluator).report formula run = e.report formula run := by
  unfold Evaluator.report Evaluator.usedQuarters
  simp only [window.quarters]

/-- Two tables with the same window that agree at the reported quarters give the same evaluation:
the same value or the same fault, and the same report. -/
theorem referenced_complete {e : Evaluator} {table : Metric.Table Float} {written : String}
    (window : e.table.SameWindow table)
    (agree : ∀ quarter ∈ (e.evaluate written).referenced, e.table.AgreeAt table quarter) :
    (Formula.evaluate (({ e with table } : Evaluator).context (Formula.formulaChars written))
        .live []).outcome =
      (Formula.evaluate (e.context (Formula.formulaChars written)) .live []).outcome ∧
    ({ e with table } : Evaluator).evaluate written = e.evaluate written := by
  have noted : ∀ quarter ∈ e.table.quarters,
      quarter ∈ (Formula.evaluate (e.context (Formula.formulaChars written)) .live
        []).journal.referenced → e.table.AgreeAt table quarter := by
    intro quarter hw hq
    refine agree quarter ?_
    unfold Evaluator.evaluate
    exact (e.mem_referenced _ _ quarter).mpr ⟨hw, hq⟩
  have same : Formula.evaluate
      (({ e with table } : Evaluator).context (Formula.formulaChars written)) .live [] =
      Formula.evaluate (e.context (Formula.formulaChars written)) .live [] := by
    rw [e.context_on]
    exact Formula.evaluate_on window noted
  refine ⟨by rw [same], ?_⟩
  unfold Evaluator.evaluate
  dsimp only
  rw [same]
  exact e.report_on window _ _

/-- An evaluator over two quarters. -/
def twoQuarters : Evaluator where
  settings := {}
  selected := []
  table :=
    { cells := [("2024-Q2", [("Sales", none)]), ("2024-Q1", [("Sales", none)])]
      quarters := ["2024-Q2", "2024-Q1"], windowSize := 2 }

/-- The same window with other metrics in the older quarter. -/
def otherFirstQuarter : Metric.Table Float :=
  { twoQuarters.table with cells := [("2024-Q2", [("Sales", none)]), ("2024-Q1", [])] }

theorem referenced_complete_of_latest_quarter :
    (twoQuarters.evaluate "Sales[Q2]").referenced = ["2024-Q2"] ∧
    (Formula.evaluate (({ twoQuarters with table := otherFirstQuarter } : Evaluator).context
        (Formula.formulaChars "Sales[Q2]")) .live []).outcome =
      (Formula.evaluate (twoQuarters.context (Formula.formulaChars "Sales[Q2]")) .live []).outcome ∧
    ({ twoQuarters with table := otherFirstQuarter } : Evaluator).evaluate "Sales[Q2]" =
      twoQuarters.evaluate "Sales[Q2]" := by
  have referenced : (twoQuarters.evaluate "Sales[Q2]").referenced = ["2024-Q2"] := by
    decide +kernel
  refine ⟨referenced, referenced_complete ⟨rfl, rfl⟩ ?_⟩
  intro quarter hq name
  rw [referenced] at hq
  obtain rfl := List.mem_singleton.mp hq
  rfl

end Quarterly
