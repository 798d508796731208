import Mathlib.Data.List.Forall2
import Quarterly.Batch
import Quarterly.Proofs.Batch.Companies
import Quarterly.Proofs.Number.Column

/-!
# Batches and single signals

A batch shares an evaluator between all rules that select the same quarters, keeps it from rule to
rule, and may finish companies in any order. None of that shows: its rows are, company by company
and rule by rule, those of single signals over the records of the company alone. What the cache
holds at any time was built from the records of the company (`Cached`), so that each rule meets the
evaluator that it would have been given alone (`Cached.evaluatorFor`, `evaluateRules_rows`); and
the outcome of a company is looked up under its name, whatever else was finished before it
(`outcomes_get?`). In the table of results the integers then become doubles if the whole column of
results is one of numbers.
-/

namespace Quarterly.Batch

/-! ### One company -/

section

variable {ticker : String} {records : List Record} {settings : Settings} {known : Evaluators}
  {selected : List String} {e : Evaluator}

/-- Every evaluator of a company that is there was built from its records for its selection. -/
def Cached (records : List Record) (settings : Settings) (known : Evaluators) : Prop :=
  ∀ selected e, known.lookup selected = some e →
    Evaluator.ofRecords records selected settings = .ok e

/-- A row comes from an evaluator that was built for its rule. -/
def Evaluated (ticker : String) (records : List Record) (settings : Settings) (rule : SignalRule)
    (row : BatchRow) : Prop :=
  ∃ e, Evaluator.ofRecords records (selection rule) settings = .ok e ∧
    row = rowOf ticker rule (Signal.ofReport (e.evaluate rule.formula))

theorem Cached.nil : Cached records settings [] := by
  intro selected e h
  cases h

theorem Cached.cons (cached : Cached records settings known)
    (built : Evaluator.ofRecords records selected settings = .ok e) :
    Cached records settings ((selected, e) :: known) := by
  intro other e' h
  rw [List.lookup_cons] at h
  by_cases same : other = selected
  · rw [same, beq_self_eq_true] at h
    cases h
    rw [same]
    exact built
  · have different : (other == selected) = false := by simpa using same
    rw [different] at h
    exact cached other e' h

/-- From the cache or not, a rule gets the evaluator that is built for its selection. -/
theorem Cached.evaluatorFor (cached : Cached records settings known)
    (built : Evaluator.ofRecords records selected settings = .ok e) :
    ∃ known', evaluatorFor records settings known selected = .ok (e, known') ∧
      Cached records settings known' := by
  unfold Batch.evaluatorFor
  cases h : known.lookup selected with
  | some e' =>
    obtain rfl : e' = e := Except.ok.inj ((cached selected e' h).symm.trans built)
    exact ⟨known, rfl, cached⟩
  | none =>
    rw [built]
    exact ⟨(selected, e) :: known, rfl, cached.cons built⟩

theorem evaluateRules_rows {rules : List SignalRule} (cached : Cached records settings known)
    (built : ∀ rule ∈ rules, ∃ e, Evaluator.ofRecords records (selection rule) settings = .ok e) :
    ∃ outcome, evaluateRules ticker records settings known rules = .ok outcome ∧
      List.Forall₂ (Evaluated ticker records settings) rules outcome.rows := by
  induction rules generalizing known with
  | nil => exact ⟨_, rfl, .nil⟩
  | cons rule rest ih =>
    obtain ⟨e, he⟩ := built rule List.mem_cons_self
    obtain ⟨known', found, cached'⟩ := cached.evaluatorFor he
    obtain ⟨others, ho, rows⟩ := ih cached' fun r hr => built r (List.mem_cons_of_mem _ hr)
    unfold evaluateRules
    rw [found]
    change ∃ outcome, (evaluateRules ticker records settings known' rest >>= _) = .ok outcome ∧ _
    rw [ho]
    exact ⟨_, rfl, .cons ⟨e, he, rfl⟩ rows⟩

end

/-! ### All companies -/

variable {c : Configuration} {finishing : List (String × List Record)}

/-- The evaluators that the rules of a configuration need can be built for some records. -/
def Buildable (c : Configuration) (records : List Record) : Prop :=
  ∀ rule ∈ c.signals, ∃ e, Evaluator.ofRecords records (selection rule) c.evaluator = .ok e

instance (c : Configuration) (records : List Record) : Decidable (Buildable c records) :=
  decidable_of_iff (∀ rule ∈ c.signals,
      (Evaluator.ofRecords records (selection rule) c.evaluator).toOption.isSome = true) <| by
    refine forall₂_congr fun rule _ => ?_
    cases Evaluator.ofRecords records (selection rule) c.evaluator <;> simp [Except.toOption]

theorem evaluateCompany_rows {records : List Record} (ticker : String)
    (built : Buildable c records) :
    ∃ outcome, evaluateCompany c ticker records = .ok outcome ∧
      List.Forall₂ (Evaluated ticker records c.evaluator) c.signals outcome.rows :=
  evaluateRules_rows Cached.nil built

theorem outcomes_get? (built : ∀ company ∈ finishing, Buildable c company.2) :
    ∃ finished, outcomes c finishing = .ok finished ∧ ∀ ticker, finished.get? ticker =
      (Keyed.get? finishing ticker).bind fun records =>
        (evaluateCompany c ticker records).toOption := by
  induction finishing with
  | nil => exact ⟨[], rfl, fun _ => rfl⟩
  | cons company rest ih =>
    obtain ⟨name, records⟩ := company
    obtain ⟨outcome, ho, _⟩ := evaluateCompany_rows name (built (name, records) List.mem_cons_self)
    obtain ⟨others, hothers, found⟩ := ih fun other h => built other (List.mem_cons_of_mem _ h)
    refine ⟨(name, outcome) :: others, ?_, fun ticker => ?_⟩
    · unfold outcomes
      rw [ho, hothers]
      rfl
    · rw [Keyed.get?_cons, Keyed.get?_cons]
      by_cases same : name = ticker
      · subst same
        rw [if_pos rfl, if_pos rfl, Option.bind_some, ho]
        rfl
      · rw [if_neg same, if_neg same, found]

/-- The rows of a company, evaluated on its own. -/
def companyRows (c : Configuration) (records : List Record) (ticker : String) : List BatchRow :=
  ((evaluateCompany c ticker (Record.ofTicker ticker records)).toOption.map (·.rows)).getD []

/-- The rows do not show in which order the companies were finished. -/
theorem evaluateIn_rows {records : List Record}
    (built : ∀ company ∈ Record.byTicker records, Buildable c company.2)
    (order : finishing.Perm (Record.byTicker records)) :
    ∃ outcome, evaluateIn c (Record.byTicker records) finishing = .ok outcome ∧
      outcome.rows = (Record.tickers records).flatMap (companyRows c records) := by
  obtain ⟨finished, hf, found⟩ := outcomes_get? fun company h => built company (order.mem_iff.mp h)
  have unique : (Record.byTicker records).keys.Nodup := by
    rw [Record.keys_byTicker]
    exact Record.nodup_tickers
  unfold evaluateIn
  rw [hf]
  refine ⟨_, rfl, ?_⟩
  change rowsInOrder (Record.byTicker records).keys finished = _
  unfold rowsInOrder
  rw [Record.keys_byTicker]
  refine List.flatMap_congr fun ticker inside => ?_
  rw [found, Keyed.get?_of_perm order unique, Record.byTicker_eq, Keyed.get?_map, if_pos inside]
  rfl

/-! ### Rows and single signals -/

/-- A row shows the signal of a rule for a company. -/
structure Shows (place : String × SignalRule) (signal : Signal) (row : BatchRow) : Prop where
  ticker : row.ticker = place.1
  rule : row.signal = place.2.name
  formula : row.formula = place.2.formula
  result : row.result = signal.result
  kind : row.kind = signal.kind
  quarters : quartersField row = ",".intercalate signal.usedQuarters

/-- A row shows what evaluating the formula of a rule alone, over the data of a company alone,
comes to. -/
def Reports (c : Configuration) (data : List Datum) (place : String × SignalRule)
    (row : BatchRow) : Prop :=
  ∃ signal, evaluateSignal (Datum.ofTicker place.1 data) place.2.formula (selection place.2)
    c.evaluator = .ok signal ∧ Shows place signal row

/-- The companies and rules that rows are for, in their order. -/
def places (c : Configuration) (records : List Record) : List (String × SignalRule) :=
  (Record.tickers records).flatMap fun ticker => c.signals.map fun rule => (ticker, rule)

/-- The table of results for some records whose companies are finished in a given order. -/
def tableIn (c : Configuration) (records : List Record) (finishing : List (String × List Record)) :
    Except Fault (List BatchRow) := do
  let outcome ← (evaluateIn c (Record.byTicker records) finishing).mapError .table
  (uniform outcome.rows).mapError .numeric

/-- What the results of rows are as entries of their column. -/
def resultKinds (rows : List BatchRow) : List Column.Kind :=
  rows.map fun row => resultKind row.result

/-- A table of results has given rows. Only the column of results is changed as a whole: if it is
one of numbers its integers become doubles, and otherwise an integer that has no double can keep
the table from being made. -/
structure TableOf (rows : List BatchRow) (table : Except Fault (List BatchRow)) : Prop where
  united : Column.Unites (resultKinds rows) →
    table = .ok (rows.map (changeRow Column.asDouble))
  separate : ¬ Column.Unites (resultKinds rows) → table = .ok rows ∨
    ∃ i cause, .number (.int i) ∈ resultKinds rows ∧ (Number.int i).toDouble = .error cause ∧
      table = .error (.numeric cause)

theorem tableOf_uniform (rows : List BatchRow) :
    TableOf rows ((uniform rows).mapError .numeric) where
  united unites := by
    rw [uniform, Column.uniform_of_unites changeRow unites]
    rfl
  separate apart := by
    rcases Column.uniform_of_not_unites changeRow apart with
      same | ⟨i, cause, inside, large, failed⟩
    · rw [uniform, same]
      exact .inl rfl
    · rw [uniform, failed]
      exact .inr ⟨i, cause, inside, large, rfl⟩

theorem tableIn_byTicker (c : Configuration) (records : List Record) :
    tableIn c records (Record.byTicker records) = (resultsOf c records).map (·.1) := by
  unfold tableIn resultsOf evaluate
  cases evaluateIn c (Record.byTicker records) (Record.byTicker records) with
  | error cause => rfl
  | ok outcome =>
    change (uniform outcome.rows).mapError Fault.numeric =
      (((uniform outcome.rows).mapError Fault.numeric) >>= fun rows => pure (rows, _)).map _
    cases uniform outcome.rows <;> rfl

/-- A run has the table of the records in its file. -/
theorem run_outcome {folder : Folder} {file : RecordFile}
    (h : (RecordFile.load (m := StateM Folder) c.data.path (c.data.tickers.getD []) folder).1 =
      .ok file) :
    (run (m := StateM Folder) c none folder).1.outcome =
      tableIn c file.records (Record.byTicker file.records) := by
  rw [tableIn_byTicker]
  cases hl : RecordFile.load (m := StateM Folder) c.data.path (c.data.tickers.getD []) folder with
  | mk loaded after =>
    obtain rfl : loaded = .ok file := by rw [← h, hl]
    unfold run
    simp only [bind, StateT.bind, hl]
    cases resultsOf c file.records <;> rfl

theorem reports_of_evaluated {data : List Datum} {records : List Record} {ticker : String}
    {rule : SignalRule} {row : BatchRow} (valid : checkRecords data = .ok records)
    (inside : ticker ∈ Record.tickers records)
    (h : Evaluated ticker (Record.ofTicker ticker records) c.evaluator rule row) :
    Reports c data (ticker, rule) row := by
  obtain ⟨e, built, rfl⟩ := h
  have checked := checkRecords_ofTicker ticker valid
  have filled : (Datum.ofTicker ticker data).isEmpty = false := by
    cases hd : Datum.ofTicker ticker data with
    | cons d rest => rfl
    | nil =>
      rw [hd] at checked
      exact absurd (Except.ok.inj checked).symm (Record.mem_tickers.mp inside)
  refine ⟨Signal.ofReport (e.evaluate rule.formula), ?_, ⟨rfl, rfl, rfl, rfl, rfl, rfl⟩⟩
  unfold evaluateSignal Evaluator.ofData
  rw [filled, checked]
  change Signal.ofEvaluator ((Evaluator.ofRecords _ _ _).mapError _) _ = _
  rw [built]
  rfl

theorem forall₂_flatMap {α β γ : Type} {R : β → γ → Prop} {f : α → List β} {g : α → List γ}
    {elements : List α} (h : ∀ x ∈ elements, List.Forall₂ R (f x) (g x)) :
    List.Forall₂ R (elements.flatMap f) (elements.flatMap g) := by
  induction elements with
  | nil => exact .nil
  | cons x rest ih =>
    rw [List.flatMap_cons, List.flatMap_cons]
    exact List.rel_append (h x List.mem_cons_self)
      (ih fun y inside => h y (List.mem_cons_of_mem _ inside))

/-- The rows of a company are those of single signals over its data. -/
theorem companyRows_reports {data : List Datum} {records : List Record} {ticker : String}
    (valid : checkRecords data = .ok records)
    (built : ∀ company ∈ Record.byTicker records, Buildable c company.2)
    (inside : ticker ∈ Record.tickers records) :
    List.Forall₂ (Reports c data) (c.signals.map fun rule => (ticker, rule))
      (companyRows c records ticker) := by
  have company : (ticker, Record.ofTicker ticker records) ∈ Record.byTicker records := by
    rw [Record.byTicker_eq]
    exact List.mem_map.mpr ⟨ticker, inside, rfl⟩
  obtain ⟨outcome, ho, rows⟩ := evaluateCompany_rows ticker (built _ company)
  unfold companyRows
  rw [ho]
  exact List.forall₂_map_left_iff.mpr (rows.imp fun _ _ h => reports_of_evaluated valid inside h)

/-- The sales of a company in one quarter. -/
def sale (ticker value : String) : Datum :=
  .mapping [("ticker", .text ticker), ("quarter", .text "Sep 2024"),
    ("metric_name", .text "Sales"), ("metric_value", .text value)]

def sales : List Datum := [sale "A" "50", sale "B" "30"]

def salesRecords : List Record := [
  { ticker := "A", quarter := "Sep 2024", metricName := "Sales", metricValue := some (.text "50") },
  { ticker := "B", quarter := "Sep 2024", metricName := "Sales", metricValue := some (.text "30") }]

/-- A folder with a file of these records. -/
def salesFolder : Folder :=
  ⟨.ofText "/home", [("q.csv",
    "ticker,quarter,metricName,metricValue\nA,Sep 2024,Sales,50\nB,Sep 2024,Sales,30\n")]⟩

/-- Rules of which two share an evaluator, one of them with a fault. -/
def sharing : Configuration where
  data := { path := "q.csv" }
  signals := [⟨"count", "COUNT(1)", none⟩, ⟨"open", "(", some []⟩,
    ⟨"sales", "Sales[Q1]", some ["Sep 2024"]⟩]

/-- Rules with an integer and a double for results. -/
def countAndHalf : Configuration where
  data := { path := "q.csv" }
  signals := [⟨"count", "COUNT(1)", none⟩, ⟨"half", "1.5", none⟩]

/-- A rule with an integer beyond the doubles for a result. -/
def largePower : Configuration where
  data := { path := "q.csv" }
  signals := [⟨"power",
    "LET(x, FLOOR(1000000000000000), y, x * x * x * x * x, y * y * y * y * y)", none⟩]

/-- Whether a result is an integer. -/
def isInteger : Formula.Value → Bool
  | .number (.int _) => true
  | _ => false

end Quarterly.Batch
