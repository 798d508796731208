import Quarterly.Metric.Table
import Quarterly.Proofs.Keyed
import Quarterly.Proofs.Outcome

/-!
# Metric tables and the records they were built from

A table keeps the values of a quarter under names and under keys of names in one list, and later
records overwrite earlier ones under both. Here is what a look-up finds in terms of the records
alone: the last record of the quarter that has the name, as its own name or as its key, and without
one the last record that has the key of the name. Building a table enters record by record
(`enter_get?`), and what is under a name after all of them is up to the last that answers to it
(`enterAll_get?`).
-/

namespace Quarterly

namespace Metric

/-! ### What the records say -/

/-- A record of a quarter has a name, as its own or as its key. -/
def Answers (quarter name : String) (record : Record) : Prop :=
  record.quarter = quarter ∧
    (record.metricName = name ∨ normalizeKey record.metricName = name)

instance (quarter name : String) : DecidablePred (Answers quarter name) :=
  fun _ => inferInstanceAs (Decidable (_ ∧ _))

/-- The last record of a quarter that has a name. -/
def lastAnswer? (records : List Record) (quarter name : String) : Option Record :=
  records.reverse.find? fun record => decide (Answers quarter name record)

/-- The decimal of a record. -/
def decimalOf (record : Record) : Option Float :=
  (normalizeValue record.metricValue (some record.metricName)).toOption.join

theorem normalizeValue_of_decimalOf {record : Record} {x : Float} (h : decimalOf record = some x) :
    normalizeValue record.metricValue (some record.metricName) = .ok (some x) :=
  Except.toOption_eq_some.mp (Option.join_eq_some_iff.mp h)

/-- What the records say about a name in a quarter: the decimal of the last record that has the
name or, without one, of the last record that has the key of the name. -/
def scan? (records : List Record) (quarter name : String) : Option Float :=
  match lastAnswer? records quarter name with
  | some record => decimalOf record
  | none => (lastAnswer? records quarter (normalizeKey name)).bind decimalOf

theorem lastAnswer?_cons (record : Record) (rest : List Record) (quarter name : String) :
    lastAnswer? (record :: rest) quarter name =
      (lastAnswer? rest quarter name).or
        (if Answers quarter name record then some record else none) := by
  unfold lastAnswer?
  rw [List.reverse_cons, List.find?_append, List.find?_singleton]
  simp

theorem lastAnswer?_append (before after : List Record) (quarter name : String) :
    lastAnswer? (before ++ after) quarter name =
      (lastAnswer? after quarter name).or (lastAnswer? before quarter name) := by
  unfold lastAnswer?
  rw [List.reverse_append, List.find?_append]

theorem lastAnswer?_eq_none_iff {records : List Record} {quarter name : String} :
    lastAnswer? records quarter name = none ↔
      ∀ record ∈ records, ¬ Answers quarter name record := by
  simp [lastAnswer?]

/-! ### Building a table -/

theorem enter_get? {metrics metrics' : Keyed (Option Float)} {record : Record}
    (h : enter metrics record = .ok metrics') (name : String) :
    metrics'.get? name =
      if record.metricName = name ∨ normalizeKey record.metricName = name then
        some (decimalOf record) else metrics.get? name := by
  obtain ⟨value, hv, ⟨⟩⟩ := Except.bind_eq_ok.mp h
  have decimal : decimalOf record = value := by
    unfold decimalOf
    rw [hv]
    cases value <;> rfl
  rw [Keyed.get?_put, Keyed.get?_put, decimal]
  by_cases own : record.metricName = name <;>
    by_cases key : normalizeKey record.metricName = name <;> simp [own, key]

theorem normalizeValue_of_enter {metrics metrics' : Keyed (Option Float)} {record : Record}
    (h : enter metrics record = .ok metrics') :
    ∃ value, normalizeValue record.metricValue (some record.metricName) = .ok value := by
  obtain ⟨value, hv, -⟩ := Except.bind_eq_ok.mp h
  exact ⟨value, hv⟩

/-- One record changes what is under the names that it answers to in its quarter, and nothing
else. -/
theorem enterAll_cons {record : Record} {rest : List Record}
    {cells cells' : Keyed (Keyed (Option Float))} {quarter : String}
    {metrics : Keyed (Option Float)} (h : enterAll cells (record :: rest) = .ok cells')
    (hq : cells.get? quarter = some metrics) :
    ∃ next metrics', enterAll next rest = .ok cells' ∧ next.get? quarter = some metrics' ∧
      (∀ name, metrics'.get? name =
        if Answers quarter name record then some (decimalOf record) else metrics.get? name) ∧
      (record.quarter = quarter →
        ∃ value, normalizeValue record.metricValue (some record.metricName) = .ok value) := by
  have untouched : record.quarter ≠ quarter → ∀ name, metrics.get? name =
      if Answers quarter name record then some (decimalOf record) else metrics.get? name :=
    fun outside name => (if_neg fun answers => outside answers.1).symm
  unfold enterAll at h
  cases hr : cells.get? record.quarter with
  | none =>
    have outside : record.quarter ≠ quarter := by
      rintro rfl
      rw [hr] at hq
      cases hq
    rw [hr] at h
    exact ⟨cells, metrics, h, hq, untouched outside, fun same => absurd same outside⟩
  | some before =>
    simp only [hr] at h
    obtain ⟨after, he, h⟩ := Except.bind_eq_ok.mp h
    by_cases same : record.quarter = quarter
    · subst same
      obtain rfl : before = metrics := Option.some.inj (hr.symm.trans hq)
      refine ⟨cells.put record.quarter after, after, h, ?_, fun name => ?_,
        fun _ => normalizeValue_of_enter he⟩
      · rw [Keyed.get?_put, if_pos rfl]
      · rw [enter_get? he]
        simp only [Answers, true_and]
    · refine ⟨cells.put record.quarter after, metrics, h, ?_, untouched same,
        fun inside => absurd inside same⟩
      rw [Keyed.get?_put, if_neg same, hq]

/-- What is under a name after all records are entered is up to the last of them that answers to
the name, and otherwise is what was there before. -/
theorem enterAll_get? {records : List Record} {cells cells' : Keyed (Keyed (Option Float))}
    {quarter : String} {metrics : Keyed (Option Float)}
    (h : enterAll cells records = .ok cells') (hq : cells.get? quarter = some metrics) :
    ∃ metrics', cells'.get? quarter = some metrics' ∧
      (∀ name, metrics'.get? name =
        ((lastAnswer? records quarter name).map decimalOf).or (metrics.get? name)) ∧
      ∀ record ∈ records, record.quarter = quarter →
        ∃ value, normalizeValue record.metricValue (some record.metricName) = .ok value := by
  induction records generalizing cells metrics with
  | nil =>
    cases h
    exact ⟨metrics, hq, fun name => by simp [lastAnswer?], by simp⟩
  | cons record rest ih =>
    obtain ⟨next, between, hn, hb, entered, value⟩ := enterAll_cons h hq
    obtain ⟨metrics', hm, names, values⟩ := ih hn hb
    refine ⟨metrics', hm, fun name => ?_, List.forall_mem_cons.mpr ⟨value, values⟩⟩
    rw [names, entered, lastAnswer?_cons, Option.map_or, Option.or_assoc]
    congr 1
    split <;> rfl

/-! ### Look-ups -/

theorem find?_eq_scan? {records : List Record} {metrics : Keyed (Option Float)} {quarter : String}
    (h : ∀ name, metrics.get? name = (lastAnswer? records quarter name).map decimalOf)
    (name : String) : find? metrics name = scan? records quarter name := by
  unfold find? scan?
  rw [h, h]
  cases lastAnswer? records quarter name with
  | some record => rfl
  | none => cases lastAnswer? records quarter (normalizeKey name) <;> rfl

namespace Table

variable {α : Type} {t u : Table α}

theorem mem_of_quarterAt? {index : Int} {quarter : String}
    (h : t.quarterAt? index = some quarter) : quarter ∈ t.quarters := by
  unfold quarterAt? at h
  dsimp only at h
  split at h
  · cases h
  · exact List.mem_of_getElem? h

theorem quarter_resolve (t : Table α) (name : String) (index : Int) :
    (t.resolve name index).quarter = t.quarterAt? index := by
  unfold resolve
  cases t.quarterAt? index with
  | none => rfl
  | some quarter =>
    dsimp only
    cases find? (t.metricsOf quarter) name <;> rfl

/-- Where two tables have the same quarter under an index and the same metrics of it, they resolve
references with this index alike. -/
theorem resolve_congr_of_find? {index : Int} (window : u.quarterAt? index = t.quarterAt? index)
    (same : ∀ quarter, t.quarterAt? index = some quarter →
      find? (u.metricsOf quarter) = find? (t.metricsOf quarter)) (name : String) :
    u.resolve name index = t.resolve name index := by
  unfold resolve
  rw [window]
  cases found : t.quarterAt? index with
  | none => rfl
  | some quarter => simp only [same quarter found]

end Table

section

variable {parse : String → Option Moment} {records : List Record} {selected : List String}
  {base : Option Int} {t : Table Float} {quarter : String}

/-- A table that was built has its quarters in order and its records entered. -/
theorem exists_cells_of_ofRecords (h : Table.ofRecordsBy parse records selected base = .ok t) :
    ∃ sorted cells, Quarter.sortBy parse (records.map (·.quarter)) = .ok sorted ∧
      enterAll ((window sorted selected).map fun q => (q, [])) records = .ok cells ∧
      t = .ofCells cells (window sorted selected) base := by
  obtain ⟨sorted, hs, h⟩ := Except.bind_eq_ok.mp h
  obtain ⟨cells, he, ⟨⟩⟩ := Except.bind_eq_ok.mp h
  exact ⟨sorted, cells, Except.mapError_eq_ok.mp hs, Except.mapError_eq_ok.mp he, rfl⟩

theorem enterAll_of_ofRecords (h : Table.ofRecordsBy parse records selected base = .ok t) :
    enterAll (t.quarters.map fun q => (q, [])) records = .ok t.cells := by
  obtain ⟨sorted, cells, -, entered, rfl⟩ := exists_cells_of_ofRecords h
  exact entered

/-- The metrics of a quarter in the window are those that a scan of the records finds. -/
theorem metricsOf_ofRecords (h : Table.ofRecordsBy parse records selected base = .ok t)
    (hq : quarter ∈ t.quarters) :
    (∀ name, find? (t.metricsOf quarter) name = scan? records quarter name) ∧
      ∀ record ∈ records, record.quarter = quarter →
        ∃ value, normalizeValue record.metricValue (some record.metricName) = .ok value := by
  have empty : Keyed.get? (t.quarters.map fun q => (q, ([] : Keyed (Option Float)))) quarter =
      some [] := by rw [Keyed.get?_map, if_pos hq]
  obtain ⟨metrics, hm, names, values⟩ := enterAll_get? (enterAll_of_ofRecords h) empty
  have same : t.metricsOf quarter = metrics := by
    unfold Table.metricsOf
    rw [hm, Option.getD_some]
  refine ⟨fun name => ?_, values⟩
  rw [same]
  refine find?_eq_scan? (fun name => ?_) name
  rw [names]
  simp [Keyed.get?]

end

/-- An operating margin without a number, and two records with the key of a financing margin. -/
def margins : List Record := [
  { ticker := "A", quarter := "Mar 2024", metricName := "OPM %",
    metricValue := some (.text "n/a") },
  { ticker := "A", quarter := "Mar 2024", metricName := "financing margin",
    metricValue := some (.text "12") },
  { ticker := "A", quarter := "Mar 2024", metricName := "Financing Margin",
    metricValue := some (.text "15%") }]

end Metric

end Quarterly
