import Quarterly.Proofs.Metric.Building

/-!
# Restricted windows

A window restricted to some quarters, against the window of the records of these quarters alone. The
metrics of every quarter are the same, since a record is entered into its own quarter only. The
order is the same as long as both windows are put in order in the same way. What counts for the
restricted window is whether all labels have dates, those outside the selection included: one such
label without a date makes the labels decide (`restricted_window`).
-/

namespace Quarterly

/-- The records of some quarters. -/
def Record.within (selected : List String) (records : List Record) : List Record :=
  records.filter fun record => selected.contains record.quarter

namespace Metric

open Quarter (AllDated MixesZones Newer LaterLabel Listed parseLabel?)

variable {records : List Record} {selected : List String} {base : Option Int}
  {t u : Table Float} {quarter : String}

/-! ### What the records of some quarters say -/

theorem labels_within : (Record.within selected records).map (·.quarter) =
    (records.map (·.quarter)).filter selected.contains := by
  unfold Record.within
  rw [List.filter_map]
  rfl

/-- Records of other quarters do not answer. -/
theorem lastAnswer?_within (inside : quarter ∈ selected) (name : String) :
    lastAnswer? (Record.within selected records) quarter name =
      lastAnswer? records quarter name := by
  unfold Record.within
  induction records with
  | nil => rfl
  | cons record rest ih =>
    rw [List.filter_cons, lastAnswer?_cons, ← ih]
    split
    · rw [lastAnswer?_cons]
    · rename_i outside
      have noAnswer : ¬ Answers quarter name record := by
        rintro ⟨rfl, _⟩
        exact outside (List.contains_iff_mem.mpr inside)
      rw [if_neg noAnswer, Option.or_none]

theorem scan?_within (inside : quarter ∈ selected) (name : String) :
    scan? (Record.within selected records) quarter name = scan? records quarter name := by
  unfold scan?
  rw [lastAnswer?_within inside, lastAnswer?_within inside]

/-! ### Look-ups -/

/-- Where two tables have the same metrics of a quarter, they resolve references to it alike. -/
theorem resolve_of_quarterAt? {i j : Int} (hi : t.quarterAt? i = some quarter)
    (hj : u.quarterAt? j = some quarter)
    (same : find? (u.metricsOf quarter) = find? (t.metricsOf quarter)) (name : String) :
    u.resolve name j = { t.resolve name i with index := j } := by
  unfold Table.resolve
  simp only [hi, hj, same]
  cases find? (t.metricsOf quarter) name <;> dsimp only

theorem find?_within (ht : Table.ofRecords records selected base = .ok t)
    (hu : Table.ofRecords (Record.within selected records) [] base = .ok u)
    (inside : quarter ∈ selected) (inT : quarter ∈ t.quarters) (inU : quarter ∈ u.quarters) :
    find? (u.metricsOf quarter) = find? (t.metricsOf quarter) := by
  funext name
  rw [(metricsOf_ofRecords ht inT).1, (metricsOf_ofRecords hu inU).1, scan?_within inside]

/-! ### Restricting a window -/

/-- Of the labels in order, some are in order as well, if they are put in order in the same way. -/
theorem sort_within {sorted : List String}
    (hs : Quarter.sort (records.map (·.quarter)) = .ok sorted)
    (mode : AllDated parseLabel? (records.map (·.quarter)) ∨
      ¬ AllDated parseLabel? ((Record.within selected records).map (·.quarter))) :
    Quarter.sort ((Record.within selected records).map (·.quarter)) =
      .ok (sorted.filter selected.contains) := by
  rw [labels_within] at mode ⊢
  refine Quarter.sortBy_eq_ok_iff.mpr ?_
  rcases Quarter.sortBy_eq_ok_iff.mp hs with ⟨dates, zones, listed⟩ | ⟨undated, listed⟩
  · refine .inl ⟨?_, ?_, listed.filter _⟩
    · exact fun label mem => dates label (List.mem_filter.mp mem).1
    · rintro ⟨⟨label, mem, aware⟩, other, mem', naive⟩
      exact zones ⟨⟨label, (List.mem_filter.mp mem).1, aware⟩,
        other, (List.mem_filter.mp mem').1, naive⟩
  · exact .inr ⟨mode.resolve_left undated, listed.filter _⟩

/-- If some label has no date, the labels decide, also among those that have dates. -/
theorem listed_within {sorted : List String}
    (hs : Quarter.sort (records.map (·.quarter)) = .ok sorted)
    (undated : ¬ AllDated parseLabel? (records.map (·.quarter))) :
    Listed LaterLabel ((Record.within selected records).map (·.quarter))
      (sorted.filter selected.contains) := by
  rw [labels_within]
  rcases Quarter.sortBy_eq_ok_iff.mp hs with ⟨dates, _⟩ | ⟨_, listed⟩
  · exact absurd dates undated
  · exact listed.filter _

/-- Records of selected quarters that can be put in order make a table, if the table with the
selection can be built. -/
theorem exists_within {sorted : List String}
    (ht : Table.ofRecords records selected base = .ok t)
    (hs : Quarter.sort ((Record.within selected records).map (·.quarter)) = .ok sorted)
    (same : ∀ label, label ∈ sorted ↔ label ∈ t.quarters) :
    ∃ u, Table.ofRecords (Record.within selected records) [] base = .ok u ∧ u.quarters = sorted ∧
      u.windowSize = base.getD sorted.length := by
  have values : Valued (Record.within selected records) (window sorted []) := by
    intro record mem inside
    have inWindow : record.quarter ∈ t.quarters := (same _).mp ((mem_window _).mp inside).1
    exact valued_ofRecords ht record (List.mem_filter.mp mem).1 inWindow
  obtain ⟨u, hu, quarters, size⟩ := exists_ofRecords base hs values
  rw [quarters] at size
  exact ⟨u, hu, quarters, size⟩

section

variable (built : Table.ofRecords records selected base = .ok t) (chosen : selected ≠ [])

include built chosen

theorem restricted_quarters : ∃ sorted, Quarter.sort (records.map (·.quarter)) = .ok sorted ∧
    t.quarters = sorted.filter selected.contains ∧
    t.windowSize = base.getD t.quarters.length := by
  obtain ⟨sorted, hs, quarters, size⟩ := window_ofRecords built
  unfold window at quarters
  rw [if_neg (by simpa using chosen)] at quarters
  exact ⟨sorted, hs, quarters, size⟩

theorem mem_selected (inside : quarter ∈ t.quarters) : quarter ∈ selected := by
  obtain ⟨sorted, -, quarters, -⟩ := restricted_quarters built chosen
  rw [quarters] at inside
  exact List.contains_iff_mem.mp (List.mem_filter.mp inside).2

/-- Records that are put in the order of the restricted window make the same look-ups. -/
theorem exists_within_alike
    (hs : Quarter.sort ((Record.within selected records).map (·.quarter)) = .ok t.quarters) :
    ∃ u, Table.ofRecords (Record.within selected records) [] base = .ok u ∧
      u.quarters = t.quarters ∧ u.windowSize = t.windowSize ∧
      ∀ name index, u.resolve name index = t.resolve name index := by
  obtain ⟨sorted, -, -, hw⟩ := restricted_quarters built chosen
  obtain ⟨u, hu, quarters, size⟩ := exists_within built hs fun _ => Iff.rfl
  have sameSize : u.windowSize = t.windowSize := size.trans hw.symm
  refine ⟨u, hu, quarters, sameSize, fun name index => ?_⟩
  have sameQuarter : u.quarterAt? index = t.quarterAt? index := by
    unfold Table.quarterAt?
    rw [quarters, sameSize]
  refine Table.resolve_congr_of_find? sameQuarter (fun quarter found => ?_) name
  have inT := Table.mem_of_quarterAt? found
  exact find?_within built hu (mem_selected built chosen inT) inT (quarters ▸ inT)

/-- Records that are put in order by date make the same look-ups quarter by quarter. -/
theorem exists_within_byDate
    (listed : Listed LaterLabel ((Record.within selected records).map (·.quarter)) t.quarters)
    (dates : AllDated parseLabel? ((Record.within selected records).map (·.quarter)))
    (zones : ¬ MixesZones parseLabel? ((Record.within selected records).map (·.quarter))) :
    ∃ u, Table.ofRecords (Record.within selected records) [] base = .ok u ∧
      u.quarters.Pairwise (Newer parseLabel?) ∧ u.quarters.Perm t.quarters ∧
      u.windowSize = t.windowSize ∧
      ∀ quarter i j, t.quarterAt? i = some quarter → u.quarterAt? j = some quarter →
        ∀ name, u.resolve name j = { t.resolve name i with index := j } := by
  obtain ⟨sorted, -, -, hw⟩ := restricted_quarters built chosen
  obtain ⟨byDate, hb, listed'⟩ := Quarter.sortBy_of_allDated dates zones
  have members : ∀ label, label ∈ byDate ↔ label ∈ t.quarters := fun label =>
    (listed'.mem_iff label).trans (listed.mem_iff label).symm
  have perm : byDate.Perm t.quarters :=
    (List.perm_ext_iff_of_nodup (Quarter.nodup_of_sortBy hb) (nodup_window built)).mpr members
  obtain ⟨u, hu, quarters, size⟩ := exists_within built hb members
  have sameSize : u.windowSize = t.windowSize := by rw [size, hw, perm.length_eq]
  refine ⟨u, hu, quarters ▸ listed'.order, quarters ▸ perm, sameSize, ?_⟩
  intro quarter i j hi hj name
  have inT := Table.mem_of_quarterAt? hi
  exact resolve_of_quarterAt? hi hj
    (find?_within built hu (mem_selected built chosen inT) inT (Table.mem_of_quarterAt? hj)) name

end

/-- Two quarters, and the twelve months up to the last one under a label without a date. -/
def trailing : List Record := [
  { ticker := "A", quarter := "Jun 2024", metricName := "Sales",
    metricValue := some (.text "50") },
  { ticker := "A", quarter := "Sep 2023", metricName := "Sales",
    metricValue := some (.text "40") },
  { ticker := "A", quarter := "TTM", metricName := "Sales",
    metricValue := some (.text "90") }]

/-- The quarters of the trailing records that have dates. -/
def datedQuarters : List String := ["Jun 2024", "Sep 2023"]

theorem sort_trailing :
    Quarter.sort (trailing.map (·.quarter)) = .ok ["TTM", "Sep 2023", "Jun 2024"] :=
  Quarter.sortBy_eq_ok_iff.mpr
    (.inr ⟨by decide, ⟨fun _ => List.Perm.mem_iff (by decide), by decide⟩⟩)

theorem sort_trailing_within :
    Quarter.sort ((Record.within datedQuarters trailing).map (·.quarter)) =
      .ok ["Jun 2024", "Sep 2023"] :=
  Quarter.sortBy_eq_ok_iff.mpr
    (.inl ⟨by decide, by decide,
      ⟨fun _ => List.Perm.mem_iff (by decide), by decide⟩⟩)

theorem exists_trailing : ∃ t, Table.ofRecords trailing datedQuarters none = .ok t ∧
    t.quarters = ["Sep 2023", "Jun 2024"] ∧ t.windowSize = 2 := by
  have values : Valued trailing (window ["TTM", "Sep 2023", "Jun 2024"] datedQuarters) := by
    rintro record mem _ ⟨i, integer, _⟩
    simp only [trailing, List.mem_cons, List.not_mem_nil, or_false] at mem
    rcases mem with rfl | rfl | rfl <;> cases integer
  obtain ⟨t, ht, quarters, size⟩ := exists_ofRecords none sort_trailing values
  have order : t.quarters = ["Sep 2023", "Jun 2024"] := by
    rw [quarters]
    decide
  rw [order] at size
  exact ⟨t, ht, order, size⟩

end Metric

end Quarterly
