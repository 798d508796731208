import Quarterly.Proofs.Batch.Refinement
import Quarterly.Proofs.Metric.Building
import Quarterly.Proofs.Outcome

/-!
# What the companies of a batch have to do with each other

The rows of a company come from its own records. Yet the companies of a batch meet twice. A batch
has no table at all if the records of one company cannot be put into a table for one of the rules;
the fault of this company is then the fault of the batch. And the results of all companies stand in
one column, whose integers become doubles or keep the table from being made. Apart from that, the
rows of a company do not depend on the records of the others (`companies_apart`).
-/

namespace Quarterly.Batch

open Except (exists_ok)

/-- The records of a company keep a rule from being evaluated: their quarters are dates of which
only some know their distance to universal time, or a quarter that the rule selects has a value
beyond the range of the doubles. -/
def Spoils (records : List Record) (rule : SignalRule) : Prop :=
  Quarter.AllDated Quarter.parseLabel? (records.map (·.quarter)) ∧
      Quarter.MixesZones Quarter.parseLabel? (records.map (·.quarter)) ∨
    ∃ record ∈ records, (selection rule = [] ∨ record.quarter ∈ selection rule) ∧
      Metric.Oversized record.metricValue

variable {c : Configuration} {records : List Record} {finishing : List (String × List Record)}

/-! ### Companies without a table -/

theorem spoils_iff (settings : Settings) {rule : SignalRule} :
    Spoils records rule ↔
      ∃ cause, Evaluator.ofRecords records (selection rule) settings = .error cause := by
  unfold Spoils
  rw [← Metric.exists_fault_ofRecords_iff settings.windowSize]
  unfold Evaluator.ofRecords
  cases Metric.Table.ofRecords records (selection rule) settings.windowSize with
  | error cause => exact iff_of_true ⟨cause, rfl⟩ ⟨cause, rfl⟩
  | ok table => exact iff_of_false nofun nofun

theorem buildable_iff : Buildable c records ↔ ∀ rule ∈ c.signals, ¬ Spoils records rule := by
  refine forall₂_congr fun rule _ => ?_
  rw [spoils_iff c.evaluator]
  cases Evaluator.ofRecords records (selection rule) c.evaluator with
  | error cause => exact iff_of_false nofun fun h => h ⟨cause, rfl⟩
  | ok e => exact iff_of_true ⟨e, rfl⟩ nofun

/-- Nothing in the cache helps where an evaluator cannot be built. -/
theorem Cached.evaluatorFor_error {settings : Settings} {known : Evaluators}
    {selected : List String} {cause : Metric.TableFault} (cached : Cached records settings known)
    (h : Evaluator.ofRecords records selected settings = .error cause) :
    Batch.evaluatorFor records settings known selected = .error cause := by
  unfold Batch.evaluatorFor
  cases found : known.lookup selected with
  | some e => cases h.symm.trans (cached selected e found)
  | none =>
    rw [h]
    rfl

/-- The fault of a rule, when its evaluator cannot be built. -/
def RuleFault (c : Configuration) (records : List Record) (cause : Metric.TableFault) : Prop :=
  ∃ rule ∈ c.signals, Evaluator.ofRecords records (selection rule) c.evaluator = .error cause

theorem evaluateRules_error {ticker : String} {settings : Settings} {known : Evaluators}
    {rules : List SignalRule} (cached : Cached records settings known)
    (h : ∃ rule ∈ rules, Spoils records rule) :
    ∃ cause, evaluateRules ticker records settings known rules = .error cause ∧
      ∃ rule ∈ rules, Evaluator.ofRecords records (selection rule) settings = .error cause := by
  induction rules generalizing known with
  | nil => simp at h
  | cons rule rest ih =>
    unfold evaluateRules
    cases built : Evaluator.ofRecords records (selection rule) settings with
    | error cause =>
      rw [cached.evaluatorFor_error built]
      exact ⟨cause, rfl, rule, List.mem_cons_self, built⟩
    | ok e =>
      have later : ∃ rule ∈ rest, Spoils records rule := by
        obtain ⟨other, mem, spoils⟩ := h
        rcases List.mem_cons.mp mem with rfl | mem
        · obtain ⟨cause, failed⟩ := (spoils_iff settings).mp spoils
          cases built.symm.trans failed
        · exact ⟨other, mem, spoils⟩
      obtain ⟨known', found, cached'⟩ := cached.evaluatorFor built
      obtain ⟨cause, failed, other, mem, fault⟩ := ih cached' later
      rw [found]
      change ∃ cause, (evaluateRules ticker records settings known' rest >>= _) = .error cause ∧ _
      rw [failed]
      exact ⟨cause, rfl, other, List.mem_cons_of_mem _ mem, fault⟩

theorem evaluateCompany_error (ticker : String) (h : ¬ Buildable c records) :
    ∃ cause, evaluateCompany c ticker records = .error cause ∧ RuleFault c records cause := by
  rw [buildable_iff] at h
  exact evaluateRules_error Cached.nil (by simpa using h)

/-- The fault of a company is the fault of the batch. -/
theorem outcomes_error (h : ∃ company ∈ finishing, ¬ Buildable c company.2) :
    ∃ cause, outcomes c finishing = .error cause ∧
      ∃ company ∈ finishing, RuleFault c company.2 cause := by
  induction finishing with
  | nil => simp at h
  | cons company rest ih =>
    obtain ⟨ticker, records⟩ := company
    unfold outcomes
    by_cases built : Buildable c records
    · have later : ∃ company ∈ rest, ¬ Buildable c company.2 := by
        obtain ⟨other, mem, notBuilt⟩ := h
        rcases List.mem_cons.mp mem with rfl | mem
        · exact absurd built notBuilt
        · exact ⟨other, mem, notBuilt⟩
      obtain ⟨outcome, ho, _⟩ := evaluateCompany_rows ticker built
      obtain ⟨cause, failed, other, mem, fault⟩ := ih later
      rw [ho, failed]
      exact ⟨cause, rfl, other, List.mem_cons_of_mem _ mem, fault⟩
    · obtain ⟨cause, failed, fault⟩ := evaluateCompany_error ticker built
      rw [failed]
      exact ⟨cause, rfl, _, List.mem_cons_self, fault⟩

/-! ### The table of all companies -/

/-- The rows of all companies, as their results are before they stand in one column. -/
def allRows (c : Configuration) (records : List Record) : List BatchRow :=
  (Record.tickers records).flatMap (companyRows c records)

theorem mem_byTicker {company : String × List Record} : company ∈ Record.byTicker records ↔
    company.1 ∈ Record.tickers records ∧ company.2 = Record.ofTicker company.1 records := by
  obtain ⟨ticker, own⟩ := company
  rw [Record.byTicker_eq, List.mem_map]
  constructor
  · rintro ⟨ticker, mem, same⟩
    cases same
    exact ⟨mem, rfl⟩
  · rintro ⟨mem, same⟩
    exact ⟨ticker, mem, Prod.ext rfl same.symm⟩

/-- Every company can be evaluated. -/
def AllBuildable (c : Configuration) (records : List Record) : Prop :=
  ∀ ticker ∈ Record.tickers records, Buildable c (Record.ofTicker ticker records)

theorem allBuildable_iff :
    AllBuildable c records ↔ ∀ company ∈ Record.byTicker records, Buildable c company.2 := by
  constructor
  · intro h company mem
    obtain ⟨inside, own⟩ := mem_byTicker.mp mem
    exact own ▸ h company.1 inside
  · intro h ticker inside
    exact h (ticker, Record.ofTicker ticker records) (mem_byTicker.mpr ⟨inside, rfl⟩)

theorem tableIn_of_allBuildable (order : finishing.Perm (Record.byTicker records))
    (h : AllBuildable c records) :
    tableIn c records finishing = (uniform (allRows c records)).mapError .numeric := by
  obtain ⟨outcome, ho, rows⟩ := evaluateIn_rows (allBuildable_iff.mp h) order
  unfold tableIn
  rw [ho, allRows, ← rows]
  rfl

theorem tableIn_of_not_allBuildable (order : finishing.Perm (Record.byTicker records))
    (h : ¬ AllBuildable c records) :
    ∃ cause, tableIn c records finishing = .error (.table cause) ∧
      ∃ ticker ∈ Record.tickers records, RuleFault c (Record.ofTicker ticker records) cause := by
  have some : ∃ company ∈ finishing, ¬ Buildable c company.2 := by
    rw [allBuildable_iff] at h
    push Not at h
    obtain ⟨company, mem, notBuilt⟩ := h
    exact ⟨company, order.mem_iff.mpr mem, notBuilt⟩
  obtain ⟨cause, failed, company, mem, fault⟩ := outcomes_error some
  refine ⟨cause, ?_, company.1, ?_⟩
  · unfold tableIn evaluateIn
    rw [failed]
    rfl
  · obtain ⟨inside, own⟩ := mem_byTicker.mp (order.mem_iff.mp mem)
    exact ⟨inside, own ▸ fault⟩

/-- When a batch has a table, and which one. -/
theorem tableIn_eq_ok_iff (order : finishing.Perm (Record.byTicker records))
    {rows : List BatchRow} : tableIn c records finishing = .ok rows ↔
      AllBuildable c records ∧ uniform (allRows c records) = .ok rows := by
  by_cases h : AllBuildable c records
  · rw [tableIn_of_allBuildable order h, and_iff_right h]
    cases uniform (allRows c records) with
    | error cause => exact iff_of_false nofun nofun
    | ok rows' => exact ⟨fun h => by cases h; rfl, fun h => by cases h; rfl⟩
  · obtain ⟨cause, failed, _⟩ := tableIn_of_not_allBuildable order h
    rw [failed]
    exact iff_of_false nofun fun both => h both.1

theorem allBuildable_iff_not_spoils : AllBuildable c records ↔
    ∀ ticker ∈ Record.tickers records, ∀ rule ∈ c.signals,
      ¬ Spoils (Record.ofTicker ticker records) rule :=
  forall₂_congr fun _ _ => buildable_iff

theorem exists_tableIn_iff (order : finishing.Perm (Record.byTicker records)) :
    (∃ rows, tableIn c records finishing = .ok rows) ↔
      AllBuildable c records ∧ ¬ Column.Breaks (resultKinds (allRows c records)) := by
  simp only [tableIn_eq_ok_iff order, exists_and_left, resultKinds]
  rw [← Column.uniform_eq_error_iff changeRow]
  change _ ↔ _ ∧ ¬ ∃ cause, uniform (allRows c records) = .error cause
  cases uniform (allRows c records) with
  | error cause => exact and_congr_right' (iff_of_false nofun fun h => h ⟨cause, rfl⟩)
  | ok rows => exact and_congr_right' (iff_of_true ⟨rows, rfl⟩ nofun)

/-- Where no table can be built, this is for the records of one company. -/
theorem ruleFault_of_tableIn (order : finishing.Perm (Record.byTicker records))
    {cause : Metric.TableFault} (h : tableIn c records finishing = .error (.table cause)) :
    ∃ ticker ∈ Record.tickers records, RuleFault c (Record.ofTicker ticker records) cause := by
  by_cases built : AllBuildable c records
  · rw [tableIn_of_allBuildable order built] at h
    cases united : uniform (allRows c records) <;> rw [united] at h <;> cases h
  · obtain ⟨cause', failed, fault⟩ := tableIn_of_not_allBuildable order built
    rw [failed] at h
    cases h
    exact fault

/-! ### The rows of one company -/

/-- The rows of a company in a table. -/
def rowsOf (ticker : String) (rows : List BatchRow) : List BatchRow :=
  rows.filter fun row => row.ticker == ticker

theorem companyRows_evaluated {ticker : String}
    (built : Buildable c (Record.ofTicker ticker records)) :
    List.Forall₂ (Evaluated ticker (Record.ofTicker ticker records) c.evaluator) c.signals
      (companyRows c records ticker) := by
  obtain ⟨outcome, ho, rows⟩ := evaluateCompany_rows ticker built
  unfold companyRows
  rw [ho]
  exact rows

/-- The company and the signal that a row is for. -/
def placeOf (row : BatchRow) : String × String := (row.ticker, row.signal)

theorem map_placeOf_companyRows {ticker : String}
    (built : Buildable c (Record.ofTicker ticker records)) :
    (companyRows c records ticker).map placeOf =
      c.signals.map fun rule => (ticker, rule.name) := by
  have same : List.Forall₂ (fun (rule : SignalRule) row => (ticker, rule.name) = placeOf row)
      c.signals (companyRows c records ticker) :=
    (companyRows_evaluated built).imp fun rule row ⟨e, _, evaluated⟩ => by
      rw [evaluated]
      rfl
  have mapped := List.forall₂_map_right_iff.mpr (List.forall₂_map_left_iff.mpr same)
  rw [List.forall₂_eq_eq_eq] at mapped
  exact mapped.symm

theorem ticker_of_mem_companyRows {ticker : String} {row : BatchRow}
    (built : Buildable c (Record.ofTicker ticker records))
    (mem : row ∈ companyRows c records ticker) : row.ticker = ticker := by
  have inPlaces : placeOf row ∈ (companyRows c records ticker).map placeOf :=
    List.mem_map_of_mem mem
  rw [map_placeOf_companyRows built] at inPlaces
  obtain ⟨rule, _, same⟩ := List.mem_map.mp inPlaces
  exact (Prod.mk.inj same).1.symm

/-- One element alone contributes to a list. -/
theorem flatMap_of_others {α β : Type} [DecidableEq α] {f : α → List β} {x : α} {xs : List α}
    (nodup : xs.Nodup) (others : ∀ y ∈ xs, y ≠ x → f y = []) :
    xs.flatMap f = if x ∈ xs then f x else [] := by
  induction xs with
  | nil => rfl
  | cons y xs ih =>
    obtain ⟨notMem, nodup⟩ := List.nodup_cons.mp nodup
    obtain ⟨here, others⟩ := List.forall_mem_cons.mp others
    rw [List.flatMap_cons, ih nodup others]
    by_cases same : y = x
    · subst same
      simp [notMem]
    · rw [here same]
      simp [Ne.symm same]

/-- Among the rows of all companies, those of one company are the ones that it has alone. -/
theorem rowsOf_allRows (built : AllBuildable c records) (ticker : String) :
    rowsOf ticker (allRows c records) =
      if ticker ∈ Record.tickers records then companyRows c records ticker else [] := by
  have own : ∀ other ∈ Record.tickers records, ∀ row ∈ companyRows c records other,
      row.ticker = other :=
    fun other inside row mem => ticker_of_mem_companyRows (built other inside) mem
  have others : ∀ other ∈ Record.tickers records, other ≠ ticker →
      (companyRows c records other).filter (fun row => row.ticker == ticker) = [] := by
    refine fun other inside different => List.filter_eq_nil_iff.mpr fun row mem => ?_
    rw [own other inside row mem]
    simpa using different
  unfold rowsOf allRows
  rw [List.filter_flatMap, flatMap_of_others Record.nodup_tickers others]
  split_ifs with inside
  · exact List.filter_eq_self.mpr fun row mem => by simpa using own ticker inside row mem
  · rfl

/-- The rows of a company depend on its own records only. -/
theorem rowsOf_allRows_congr {records' : List Record} (built : AllBuildable c records)
    (built' : AllBuildable c records') {ticker : String}
    (same : Record.ofTicker ticker records' = Record.ofTicker ticker records) :
    rowsOf ticker (allRows c records') = rowsOf ticker (allRows c records) := by
  have inside : ticker ∈ Record.tickers records' ↔ ticker ∈ Record.tickers records := by
    rw [Record.mem_tickers, Record.mem_tickers, same]
  have rows : companyRows c records' ticker = companyRows c records ticker := by
    unfold companyRows
    rw [same]
  rw [rowsOf_allRows built', rowsOf_allRows built, rows]
  simp only [inside]

/-! ### One column -/

/-- The rows with one kind of number: their integers have become doubles, or they are the same. -/
structure UniformOf (rows uniform : List BatchRow) : Prop where
  united : Column.Unites (resultKinds rows) → uniform = rows.map (changeRow Column.asDouble)
  separate : ¬ Column.Unites (resultKinds rows) → uniform = rows

theorem uniformOf_of_uniform {rows rows' : List BatchRow} (h : uniform rows = .ok rows') :
    UniformOf rows rows' where
  united unites := by
    have table := (tableOf_uniform rows).united unites
    rw [h] at table
    exact Except.ok.inj table
  separate apart := by
    rcases (tableOf_uniform rows).separate apart with table | ⟨i, cause, _, _, table⟩
    · rw [h] at table
      exact Except.ok.inj table
    · rw [h] at table
      cases table

@[simp] theorem changeRow_ticker (change : Number → Number) (row : BatchRow) :
    (changeRow change row).ticker = row.ticker := rfl

theorem asDouble_twice (n : Number) : Column.asDouble (Column.asDouble n) = Column.asDouble n := by
  cases n <;> rfl

theorem changeRow_asDouble_twice (row : BatchRow) :
    changeRow Column.asDouble (changeRow Column.asDouble row) = changeRow Column.asDouble row := by
  unfold changeRow changeResult
  cases row.result <;> simp [asDouble_twice]

theorem rowsOf_map_changeRow (change : Number → Number) (ticker : String) (rows : List BatchRow) :
    rowsOf ticker (rows.map (changeRow change)) = (rowsOf ticker rows).map (changeRow change) := by
  unfold rowsOf
  rw [List.filter_map]
  rfl

theorem UniformOf.map_placeOf {rows rows' : List BatchRow} (h : UniformOf rows rows') :
    rows'.map placeOf = rows.map placeOf := by
  by_cases unites : Column.Unites (resultKinds rows)
  · rw [h.united unites, List.map_map]
    rfl
  · rw [h.separate unites]

/-- Up to the kind of their numbers, the rows of a company stay. -/
theorem UniformOf.rowsOf {rows rows' : List BatchRow} (h : UniformOf rows rows') (ticker : String) :
    (Batch.rowsOf ticker rows').map (changeRow Column.asDouble) =
      (Batch.rowsOf ticker rows).map (changeRow Column.asDouble) := by
  by_cases unites : Column.Unites (resultKinds rows)
  · rw [h.united unites, rowsOf_map_changeRow, List.map_map]
    exact List.map_congr_left fun row _ => changeRow_asDouble_twice row
  · rw [h.separate unites]

theorem map_placeOf_allRows (built : AllBuildable c records) :
    (allRows c records).map placeOf =
      (places c records).map fun place => (place.1, place.2.name) := by
  unfold allRows places
  rw [List.map_flatMap, List.map_flatMap]
  refine List.flatMap_congr fun ticker inside => ?_
  rw [map_placeOf_companyRows (built ticker inside), List.map_map]
  rfl

/-- Two tables in which a company has the same records show the same of it, except that in one of
them the integers of all results may have become doubles. -/
theorem rowsOf_congr {records' : List Record} {rows rows' : List BatchRow}
    (built : AllBuildable c records) (built' : AllBuildable c records')
    (h : UniformOf (allRows c records) rows) (h' : UniformOf (allRows c records') rows')
    {ticker : String} (same : Record.ofTicker ticker records' = Record.ofTicker ticker records) :
    (rowsOf ticker rows').map (changeRow Column.asDouble) =
        (rowsOf ticker rows).map (changeRow Column.asDouble) ∧
      ((Column.Unites (resultKinds (allRows c records')) ↔
          Column.Unites (resultKinds (allRows c records))) →
        rowsOf ticker rows' = rowsOf ticker rows) := by
  have own := rowsOf_allRows_congr built built' same
  refine ⟨by rw [h.rowsOf, h'.rowsOf, own], fun alike => ?_⟩
  by_cases unites : Column.Unites (resultKinds (allRows c records))
  · rw [h.united unites, h'.united (alike.mpr unites), rowsOf_map_changeRow, rowsOf_map_changeRow,
      own]
  · rw [h.separate unites, h'.separate (mt alike.mp unites), own]

/-- One rule about the sales of a company. -/
def salesOnly : Configuration where
  data := { path := "q.csv" }
  signals := [⟨"sales", "Sales[Q1]", none⟩]

/-- The second company has a date with a time zone and one without. -/
def zonedRecords : List Record := [
  { ticker := "A", quarter := "Sep 2024", metricName := "Sales", metricValue := some (.text "50") },
  { ticker := "B", quarter := "2024-03-31T00:00:00Z", metricName := "Sales",
    metricValue := some (.text "30") },
  { ticker := "B", quarter := "Mar 2024", metricName := "Sales", metricValue := some (.text "40") }]

/-- An integer for one of two companies, and a double for the other. -/
def countOrHalf : Configuration where
  data := { path := "q.csv" }
  signals := [⟨"sales", "IF(Sales[Q1] > 40, COUNT(1), 1.5)", none⟩]

/-- Whether the results of a company in a table are integers. -/
def integersOf (ticker : String) (table : Except Fault (List BatchRow)) : Option (List Bool) :=
  table.toOption.map fun rows => (rowsOf ticker rows).map fun row => isInteger row.result

end Quarterly.Batch
