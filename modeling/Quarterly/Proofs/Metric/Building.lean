import Quarterly.Proofs.Metric.Reading
import Quarterly.Proofs.Metric.Scan
import Quarterly.Proofs.Quarter.Order

/-!
# When a table can be built

Two things can keep a table from being built: the quarters of the records cannot be put in order, or
a record in the window has a value beyond the range of the doubles. Values outside the window are
not looked at. What is built lists the quarters of the window in order.
-/

namespace Quarterly.Metric

/-- The records of some quarters have values in the range of the doubles. -/
def Valued (records : List Record) (quarters : List String) : Prop :=
  ∀ record ∈ records, record.quarter ∈ quarters → ¬ Oversized record.metricValue

/-! ### Entering records -/

theorem exists_enter {record : Record} {value : Option Float} (metrics : Keyed (Option Float))
    (h : normalizeValue record.metricValue (some record.metricName) = .ok value) :
    ∃ metrics', enter metrics record = .ok metrics' := by
  unfold enter
  rw [h]
  exact ⟨_, rfl⟩

theorem normalizeValue_of_enter_error {metrics : Keyed (Option Float)} {record : Record}
    {cause : NumericFault} (h : enter metrics record = .error cause) :
    normalizeValue record.metricValue (some record.metricName) = .error cause := by
  rcases Except.bind_eq_error.mp h with failed | ⟨_, _, ⟨⟩⟩
  exact failed

/-- Records with values in range can be entered. -/
theorem exists_enterAll {records : List Record} {cells : Keyed (Keyed (Option Float))}
    (h : ∀ record ∈ records, (cells.get? record.quarter).isSome = true →
      ¬ Oversized record.metricValue) :
    ∃ cells', enterAll cells records = .ok cells' := by
  induction records generalizing cells with
  | nil => exact ⟨cells, rfl⟩
  | cons record rest ih =>
    obtain ⟨first, others⟩ := List.forall_mem_cons.mp h
    unfold enterAll
    cases inside : cells.get? record.quarter with
    | none => exact ih others
    | some metrics =>
      have here : (cells.get? record.quarter).isSome = true := by rw [inside]; rfl
      obtain ⟨value, hv⟩ := exists_normalizeValue_iff.mpr (first here)
      obtain ⟨metrics', hm⟩ := exists_enter metrics hv
      -- Entering a record changes the metrics of a quarter that is there already.
      obtain ⟨cells', hc⟩ : ∃ cells',
          enterAll (cells.put record.quarter metrics') rest = .ok cells' :=
        ih fun other mem there => others other mem (Keyed.isSome_get?_put here ▸ there)
      exact ⟨cells', Except.bind_eq_ok.mpr ⟨metrics', hm, hc⟩⟩

/-- Entering records fails at a record that it reaches and whose value is out of range. -/
theorem oversized_of_enterAll {records : List Record} {cells : Keyed (Keyed (Option Float))}
    {cause : NumericFault} (h : enterAll cells records = .error cause) :
    cause = .integerTooLarge ∧ ∃ record ∈ records, (cells.get? record.quarter).isSome = true ∧
      Oversized record.metricValue := by
  induction records generalizing cells with
  | nil => cases h
  | cons record rest ih =>
    unfold enterAll at h
    cases inside : cells.get? record.quarter with
    | none =>
      simp only [inside] at h
      obtain ⟨large, other, mem, hq, oversized⟩ := ih h
      exact ⟨large, other, List.mem_cons_of_mem _ mem, hq, oversized⟩
    | some metrics =>
      have here : (cells.get? record.quarter).isSome = true := by rw [inside]; rfl
      simp only [inside] at h
      rcases Except.bind_eq_error.mp h with refused | ⟨metrics', -, h⟩
      · obtain ⟨large, oversized⟩ := normalizeValue_eq_error_iff.mp (normalizeValue_of_enter_error refused)
        exact ⟨large, record, List.mem_cons_self, here, oversized⟩
      · obtain ⟨large, other, mem, there, oversized⟩ := ih h
        exact ⟨large, other, List.mem_cons_of_mem _ mem, Keyed.isSome_get?_put here ▸ there,
          oversized⟩

/-! ### Building -/

/-- Before records are entered, there are the quarters of the window and no others. -/
theorem mem_of_blank {quarters : List String} {quarter : String}
    (h : (Keyed.get? (quarters.map fun q => (q, ([] : Keyed (Option Float)))) quarter).isSome =
      true) : quarter ∈ quarters := by
  rw [Keyed.get?_map] at h
  split at h
  · assumption
  · cases h

section

variable {parse : String → Option Moment} {records : List Record}
  {selected sorted : List String} {base : Option Int} {t : Table Float}

theorem ofRecords_of_sort (h : Quarter.sortBy parse (records.map (·.quarter)) = .ok sorted) :
    Table.ofRecordsBy parse records selected base =
      ((enterAll ((window sorted selected).map fun q => (q, [])) records).mapError .numeric).map
        fun cells => .ofCells cells (window sorted selected) base := by
  unfold Table.ofRecordsBy
  rw [h]
  rfl

/-- Quarters in order make a table unless a record cannot be entered. -/
theorem ofRecords_eq_error_of_sort {fault : TableFault}
    (h : Quarter.sortBy parse (records.map (·.quarter)) = .ok sorted) :
    Table.ofRecordsBy parse records selected base = .error fault ↔ ∃ cause, fault = .numeric cause ∧
      enterAll ((window sorted selected).map fun q => (q, [])) records = .error cause := by
  rw [ofRecords_of_sort h]
  cases enterAll ((window sorted selected).map fun q => (q, [])) records with
  | ok cells => simp [Except.mapError, Except.map]
  | error cause => simp [Except.mapError, Except.map, eq_comm]

theorem ofRecords_of_not_sort {cause : Quarter.OrderFault}
    (h : Quarter.sortBy parse (records.map (·.quarter)) = .error cause) :
    Table.ofRecordsBy parse records selected base = .error (.order cause) := by
  unfold Table.ofRecordsBy
  rw [h]
  rfl

/-- The window of a table that was built. -/
theorem window_ofRecords (h : Table.ofRecordsBy parse records selected base = .ok t) :
    ∃ sorted, Quarter.sortBy parse (records.map (·.quarter)) = .ok sorted ∧
      t.quarters = window sorted selected ∧ t.windowSize = base.getD t.quarters.length := by
  obtain ⟨sorted, cells, hs, -, rfl⟩ := exists_cells_of_ofRecords h
  exact ⟨sorted, hs, rfl, rfl⟩

theorem valued_ofRecords (h : Table.ofRecordsBy parse records selected base = .ok t) :
    Valued records t.quarters :=
  fun record mem inside =>
    exists_normalizeValue_iff.mp ((metricsOf_ofRecords h inside).2 record mem rfl)

/-- A table can be built over quarters in order whose records have values in range. -/
theorem exists_ofRecords (base : Option Int)
    (hs : Quarter.sortBy parse (records.map (·.quarter)) = .ok sorted)
    (values : Valued records (window sorted selected)) :
    ∃ t, Table.ofRecordsBy parse records selected base = .ok t ∧
      t.quarters = window sorted selected ∧ t.windowSize = base.getD t.quarters.length := by
  have entered : ∃ cells,
      enterAll ((window sorted selected).map fun q => (q, [])) records = .ok cells :=
    exists_enterAll fun record mem inside => values record mem (mem_of_blank inside)
  obtain ⟨cells, hc⟩ := entered
  rw [ofRecords_of_sort hs, hc]
  exact ⟨_, rfl, rfl, rfl⟩

theorem mem_window (quarter : String) :
    quarter ∈ window sorted selected ↔
      quarter ∈ sorted ∧ (selected = [] ∨ quarter ∈ selected) := by
  unfold window
  cases selected with
  | nil => simp
  | cons first rest => simp

/-- A table fails over a number exactly if its quarters can be put in order and the window holds a
value out of range. -/
theorem ofRecords_eq_numeric_iff {cause : NumericFault} :
    Table.ofRecords records selected base = .error (.numeric cause) ↔
      cause = .integerTooLarge ∧ (∃ sorted, Quarter.sort (records.map (·.quarter)) = .ok sorted) ∧
        ∃ record ∈ records, (selected = [] ∨ record.quarter ∈ selected) ∧
          Oversized record.metricValue := by
  cases hs : Quarter.sort (records.map (·.quarter)) with
  | error cause' =>
    have unordered : Table.ofRecords records selected base = .error (.order cause') :=
      ofRecords_of_not_sort hs
    simp [unordered]
  | ok sorted =>
    constructor
    · intro h
      obtain ⟨cause', same, he⟩ := (ofRecords_eq_error_of_sort hs).mp h
      obtain rfl : cause = cause' := TableFault.numeric.inj same
      obtain ⟨large, record, mem, inside, oversized⟩ := oversized_of_enterAll he
      have chosen := ((mem_window _).mp (mem_of_blank inside)).2
      exact ⟨large, ⟨sorted, rfl⟩, record, mem, chosen, oversized⟩
    · rintro ⟨rfl, _, record, mem, chosen, oversized⟩
      have inWindow : record.quarter ∈ window sorted selected := by
        refine (mem_window _).mpr ⟨?_, chosen⟩
        exact (Quarter.mem_of_sortBy hs _).mpr (List.mem_map_of_mem mem)
      cases h : Table.ofRecords records selected base with
      | ok t =>
        obtain ⟨sorted', hs', quarters, _⟩ := window_ofRecords h
        obtain rfl : sorted = sorted' := Except.ok.inj (hs.symm.trans hs')
        exact absurd oversized (valued_ofRecords h record mem (quarters ▸ inWindow))
      | error fault =>
        obtain ⟨cause, rfl, he⟩ := (ofRecords_eq_error_of_sort hs).mp h
        rw [(oversized_of_enterAll he).1]

/-- When a table cannot be built. -/
theorem exists_fault_ofRecords_iff (base : Option Int) :
    (∃ fault, Table.ofRecords records selected base = .error fault) ↔
      Quarter.AllDated Quarter.parseLabel? (records.map (·.quarter)) ∧
          Quarter.MixesZones Quarter.parseLabel? (records.map (·.quarter)) ∨
        ∃ record ∈ records, (selected = [] ∨ record.quarter ∈ selected) ∧
          Oversized record.metricValue := by
  cases hs : Quarter.sort (records.map (·.quarter)) with
  | error cause =>
    exact iff_of_true ⟨_, ofRecords_of_not_sort hs⟩ (.inl (Quarter.sortBy_eq_error_iff.mp hs).2)
  | ok sorted =>
    have sortable : ¬ (Quarter.AllDated Quarter.parseLabel? (records.map (·.quarter)) ∧
        Quarter.MixesZones Quarter.parseLabel? (records.map (·.quarter))) := by
      rintro ⟨dates, zones⟩
      cases hs.symm.trans (Quarter.sortBy_of_mixesZones dates zones)
    rw [or_iff_right sortable]
    constructor
    · rintro ⟨fault, h⟩
      obtain ⟨cause, rfl, _⟩ := (ofRecords_eq_error_of_sort hs).mp h
      exact (ofRecords_eq_numeric_iff.mp h).2.2
    · intro oversized
      exact ⟨_, ofRecords_eq_numeric_iff.mpr ⟨rfl, ⟨sorted, hs⟩, oversized⟩⟩

/-- A window is a part of the quarters in order. -/
theorem window_sublist : (window sorted selected).Sublist sorted := by
  unfold window
  split
  · exact .refl _
  · exact List.filter_sublist

theorem nodup_window (h : Table.ofRecords records selected base = .ok t) : t.quarters.Nodup := by
  obtain ⟨sorted, hs, hq, _⟩ := window_ofRecords h
  rw [hq]
  exact (Quarter.nodup_of_sortBy hs).sublist window_sublist

/-- A window is in order, by dates or by labels. -/
theorem window_ordered (h : Table.ofRecords records selected base = .ok t) :
    t.quarters.Pairwise (Quarter.Newer Quarter.parseLabel?) ∨
      t.quarters.Pairwise Quarter.LaterLabel := by
  obtain ⟨sorted, hs, hq, _⟩ := window_ofRecords h
  rw [hq]
  rcases Quarter.sortBy_eq_ok_iff.mp hs with ⟨_, _, listed⟩ | ⟨_, listed⟩
  · exact .inl (listed.order.sublist window_sublist)
  · exact .inr (listed.order.sublist window_sublist)

end

end Quarterly.Metric
