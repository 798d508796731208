import Quarterly.Proofs.Metric.Building

/-!
# Indexes of quarters

The base of a window is the index of its newest quarter, and indexes count down from there to the
older ones, as far as the window and the base itself reach. So a higher index always means a newer
quarter (`before_of_index_lt`), and the quarters that some index reaches are the newest of the
window (`exists_index_iff`): those with fewer newer quarters than there are indexes.
-/

namespace Quarterly.Metric

open Quarter (AllDated MixesZones Newer parseLabel? sharedDates)

namespace Table

variable {α : Type} {t : Table α} {quarter : String}

theorem quarterAt?_eq_some_iff {index : Int} : t.quarterAt? index = some quarter ↔
    0 < index ∧ index ≤ t.windowSize ∧
      t.quarters[(t.windowSize - index).toNat]? = some quarter := by
  unfold quarterAt?
  dsimp only
  split
  · constructor
    · nofun
    · omega
  · rename_i inside
    exact ⟨fun h => ⟨by omega, by omega, h⟩, fun h => h.2.2⟩

/-- Which indexes reach a quarter: as many as the base and the window allow, up to the base. -/
theorem exists_quarter_iff {index : Int} : (∃ quarter, t.quarterAt? index = some quarter) ↔
    t.windowSize - min t.windowSize t.quarters.length < index ∧ index ≤ t.windowSize := by
  have reaches : (∃ quarter, t.quarters[(t.windowSize - index).toNat]? = some quarter) ↔
      (t.windowSize - index).toNat < t.quarters.length := by
    rw [← Option.isSome_iff_exists, isSome_getElem?]
  simp only [quarterAt?_eq_some_iff, exists_and_left, reaches]
  omega

section

variable {before : String → String → Prop} (order : t.quarters.Pairwise before)

include order

/-- A higher index leads to a quarter further in front. -/
theorem before_of_index_lt {low high : Int} {p q : String} (lt : low < high)
    (hp : t.quarterAt? low = some p) (hq : t.quarterAt? high = some q) : before q p := by
  obtain ⟨-, atMost, hp⟩ := quarterAt?_eq_some_iff.mp hp
  obtain ⟨-, _, hq⟩ := quarterAt?_eq_some_iff.mp hq
  obtain ⟨inside, rfl⟩ := List.getElem?_eq_some_iff.mp hp
  obtain ⟨inside', rfl⟩ := List.getElem?_eq_some_iff.mp hq
  exact List.pairwise_iff_getElem.mp order _ _ inside' inside (by omega)

variable (asymm : ∀ a b, before a b → ¬ before b a)

include asymm

theorem index_unique {i j : Int} (hi : t.quarterAt? i = some quarter)
    (hj : t.quarterAt? j = some quarter) : i = j := by
  have irrefl : ¬ before quarter quarter := fun h => asymm quarter quarter h h
  rcases Int.lt_trichotomy i j with lt | same | gt
  · exact absurd (before_of_index_lt order lt hi hj) irrefl
  · exact same
  · exact absurd (before_of_index_lt order gt hj hi) irrefl

/-- The quarters that have an index are those with fewer quarters before them than there are
indexes. -/
theorem exists_index_iff [DecidableRel before] : (∃ index, t.quarterAt? index = some quarter) ↔
    quarter ∈ t.quarters ∧ (t.quarters.countP fun other => before other quarter : Nat) <
      min t.windowSize t.quarters.length := by
  constructor
  · rintro ⟨index, h⟩
    obtain ⟨positive, atMost, place⟩ := quarterAt?_eq_some_iff.mp h
    obtain ⟨inside, -⟩ := List.getElem?_eq_some_iff.mp place
    rw [Quarter.Listed.countP_before asymm order place]
    exact ⟨List.mem_of_getElem? place, by omega⟩
  · rintro ⟨inside, few⟩
    obtain ⟨place, hp⟩ := List.mem_iff_getElem?.mp inside
    rw [Quarter.Listed.countP_before asymm order hp] at few
    refine ⟨t.windowSize - place, quarterAt?_eq_some_iff.mpr ⟨by omega, by omega, ?_⟩⟩
    rwa [show (t.windowSize - (t.windowSize - place)).toNat = place by omega]

end

end Table

section

variable {parse : String → Option Moment} {records : List Record} {selected : List String}
  {base : Option Int} {t : Table Float}

theorem mem_quarters_ofRecords (h : Table.ofRecordsBy parse records selected base = .ok t)
    (label : String) : label ∈ t.quarters ↔
      label ∈ records.map (·.quarter) ∧ (selected = [] ∨ label ∈ selected) := by
  obtain ⟨sorted, hs, quarters, -⟩ := window_ofRecords h
  rw [quarters, mem_window, Quarter.mem_of_sortBy hs]

/-- Quarters with comparable dates make a window that is in order by date. -/
theorem newer_ofRecords (dates : AllDated parse (records.map (·.quarter)))
    (h : Table.ofRecordsBy parse records selected base = .ok t) :
    t.quarters.Pairwise (Newer parse) := by
  obtain ⟨sorted, hs, quarters, -⟩ := window_ofRecords h
  rw [quarters]
  rcases Quarter.sortBy_eq_ok_iff.mp hs with ⟨-, -, listed⟩ | ⟨undated, -⟩
  · exact listed.order.sublist window_sublist
  · exact absurd dates undated

end

/-- If all labels have dates that can be compared, a table can be built unless the window holds a
value out of range, and its indexes order the quarters by age: the indexes that reach a quarter are
consecutive, as many as the base and the window allow, and end at the base; each reaches a quarter
of its own; what they reach are the newest quarters of the window; and the higher index has the
newer quarter. -/
theorem higher_index_newer {parse : String → Option Moment} {records : List Record}
    (selected : List String) (base : Option Int)
    (dates : AllDated parse (records.map (·.quarter)))
    (comparable : ¬ MixesZones parse (records.map (·.quarter))) :
    ((∃ t, Table.ofRecordsBy parse records selected base = .ok t) ↔
      ∀ record ∈ records, selected = [] ∨ record.quarter ∈ selected →
        ¬ Oversized record.metricValue) ∧
    ∀ t, Table.ofRecordsBy parse records selected base = .ok t →
      t.windowSize = base.getD t.quarters.length ∧ t.quarters.Nodup ∧
      (∀ label, label ∈ t.quarters ↔
        label ∈ records.map (·.quarter) ∧ (selected = [] ∨ label ∈ selected)) ∧
      (∀ k, (∃ label, t.quarterAt? k = some label) ↔
        t.windowSize - min t.windowSize t.quarters.length < k ∧ k ≤ t.windowSize) ∧
      (∀ j k label, t.quarterAt? j = some label → t.quarterAt? k = some label → j = k) ∧
      (∀ label, (∃ k, t.quarterAt? k = some label) ↔
        label ∈ t.quarters ∧ (t.quarters.countP fun other => Newer parse other label : Nat) <
          min t.windowSize t.quarters.length) ∧
      (∀ j k older newer, j < k → t.quarterAt? j = some older → t.quarterAt? k = some newer →
        Newer parse newer older) := by
  obtain ⟨sorted, hs, -⟩ := Quarter.sortBy_of_allDated dates comparable
  constructor
  · constructor
    · rintro ⟨t, ht⟩ record mem chosen
      have inside : record.quarter ∈ t.quarters :=
        (mem_quarters_ofRecords ht _).mpr ⟨List.mem_map_of_mem mem, chosen⟩
      exact valued_ofRecords ht record mem inside
    · intro values
      obtain ⟨t, ht, -⟩ := exists_ofRecords base hs fun record mem inside =>
        values record mem ((mem_window _).mp inside).2
      exact ⟨t, ht⟩
  · intro t ht
    have order := newer_ofRecords dates ht
    obtain ⟨-, -, -, size⟩ := window_ofRecords ht
    refine ⟨size, order.imp ?_, mem_quarters_ofRecords ht, fun k => Table.exists_quarter_iff,
      fun j k label hj hk => Table.index_unique order Newer.asymm hj hk,
      fun label => Table.exists_index_iff order Newer.asymm,
      fun j k older newer lt hj hk => Table.before_of_index_lt order lt hj hk⟩
    rintro a _ newer rfl
    exact Newer.asymm a a newer newer

/-- Records of three quarters, two of which have one date. -/
def sharedQuarters : List Record :=
  sharedDates.map fun quarter => { ticker := "A", quarter, metricName := "Sales" }

theorem quarters_sharedQuarters : sharedQuarters.map (·.quarter) = sharedDates := rfl

theorem higher_index_newer_sharedQuarters :
    AllDated parseLabel? (sharedQuarters.map (·.quarter)) ∧
    ¬ MixesZones parseLabel? (sharedQuarters.map (·.quarter)) ∧
    ∃ t, Table.ofRecords sharedQuarters [] (some 2) = .ok t ∧
      (∀ k, (∃ label, t.quarterAt? k = some label) ↔ 0 < k ∧ k ≤ 2) ∧
      t.quarterAt? 1 = some "Mar 2024" ∧ t.quarterAt? 2 = some "Jun 2024" ∧
      Newer parseLabel? "Jun 2024" "Mar 2024" := by
  have ⟨dates, comparable⟩ : AllDated parseLabel? (sharedQuarters.map (·.quarter)) ∧
      ¬ MixesZones parseLabel? (sharedQuarters.map (·.quarter)) := by
    rw [quarters_sharedQuarters]
    exact Quarter.dates_sharedDates
  have values : ∀ record ∈ sharedQuarters, ([] : List String) = [] ∨ record.quarter ∈ [] →
      ¬ Oversized record.metricValue := by
    rintro record mem - ⟨i, value, -⟩
    obtain ⟨quarter, -, rfl⟩ := List.mem_map.mp mem
    cases value
  obtain ⟨built, orders⟩ := higher_index_newer [] (some 2) dates comparable
  obtain ⟨t, ht⟩ := built.mpr values
  obtain ⟨size, -, -, indexes, -, -, newer⟩ := orders t ht
  have quarters : t.quarters = ["Jun 2024", "Mar 2024", "2024-03-01"] := by
    obtain ⟨sorted, hs, window, -⟩ := window_ofRecords ht
    rw [quarters_sharedQuarters] at hs
    obtain rfl := Except.ok.inj (hs.symm.trans Quarter.sort_sharedDates)
    exact window
  have base : t.windowSize = 2 := size
  have first : t.quarterAt? 1 = some "Mar 2024" := by
    rw [Table.quarterAt?, base, quarters]
    rfl
  have second : t.quarterAt? 2 = some "Jun 2024" := by
    rw [Table.quarterAt?, base, quarters]
    rfl
  refine ⟨dates, comparable, t, ht, fun k => (indexes k).trans ?_, first, second,
    newer 1 2 _ _ (by decide) first second⟩
  rw [base, quarters]
  rfl

end Quarterly.Metric
