import Quarterly.Proofs.Metric.Building
import Quarterly.Proofs.Text.Lowercase

/-!
# Spellings of a name

Names and keys of names share one list, so the name of one record could stand in the way of the key
of another. It cannot: a key is its own key (`normalizeKey_normalizeKey`), hence a record that
answers to a name has the key of this name (`key_of_answers`). A record that is alone in its quarter
with its key is therefore found under every spelling of its name, wherever it stands among the
records.
-/

namespace Quarterly.Metric

/-! ### Keys -/

theorem toList_normalizeKey (name : String) : (normalizeKey name).toList =
    (Text.lower name).toList.filter fun c =>
      c != '(' && c != ')' && c != '%' && !Text.isBlank c := by
  rw [normalizeKey, String.toList_ofList]

/-- A key is its own key. -/
theorem normalizeKey_normalizeKey (name : String) :
    normalizeKey (normalizeKey name) = normalizeKey name := by
  have small : ∀ c ∈ (normalizeKey name).toList, Text.IsSmall c := by
    intro c mem
    rw [toList_normalizeKey] at mem
    exact Text.isSmall_of_mem_lower (List.mem_filter.mp mem).1
  apply String.toList_inj.mp
  rw [toList_normalizeKey, Text.lower_of_isSmall small, toList_normalizeKey, List.filter_filter]
  simp only [Bool.and_self]

/-! ### Records alone with their key -/

/-- A record answers to names of its own key only. -/
theorem key_of_answers {quarter name : String} {record : Record}
    (h : Answers quarter name record) : normalizeKey record.metricName = normalizeKey name := by
  obtain ⟨-, own | key⟩ := h
  · rw [own]
  · rw [← key, normalizeKey_normalizeKey]

section

variable {before after : List Record} {record : Record} {name : String}
  (alone : ∀ other ∈ before ++ after, other.quarter = record.quarter →
    normalizeKey other.metricName ≠ normalizeKey record.metricName)
  (same : normalizeKey name = normalizeKey record.metricName)

include alone same

/-- None of the other records answers in place of the one that is alone with its key. -/
theorem lastAnswer?_of_alone : lastAnswer? (before ++ record :: after) record.quarter name =
    if Answers record.quarter name record then some record else none := by
  have silent : ∀ other ∈ before ++ after, ¬ Answers record.quarter name other :=
    fun other mem answers => alone other mem answers.1 ((key_of_answers answers).trans same)
  have noEarlier : lastAnswer? before record.quarter name = none :=
    lastAnswer?_eq_none_iff.mpr fun other mem => silent other (List.mem_append_left _ mem)
  have noLater : lastAnswer? after record.quarter name = none :=
    lastAnswer?_eq_none_iff.mpr fun other mem => silent other (List.mem_append_right _ mem)
  rw [lastAnswer?_append, lastAnswer?_cons, noLater, noEarlier, Option.none_or, Option.or_none]

/-- The record that is alone with its key is found under all names of this key: under the name, or
else under the key of the name. -/
theorem scan?_of_alone :
    scan? (before ++ record :: after) record.quarter name = decimalOf record := by
  have key : Answers record.quarter (normalizeKey name) record := ⟨rfl, .inr same.symm⟩
  have same' : normalizeKey (normalizeKey name) = normalizeKey record.metricName :=
    (normalizeKey_normalizeKey name).trans same
  unfold scan?
  rw [lastAnswer?_of_alone alone same, lastAnswer?_of_alone alone same', if_pos key]
  split
  · rename_i found
    split at found
    · obtain rfl := Option.some.inj found
      rfl
    · cases found
  · rfl

end

/-- Every spelling of its name leads to a record that is alone in its quarter with its key and has a
decimal, among whatever other records and in whatever order. -/
theorem resolve_any_spelling {parse : String → Option Moment} {before after : List Record}
    {record : Record} {selected : List String} {base : Option Int} {t : Table Float} {index : Int}
    {x : Float} {name : String}
    (built : Table.ofRecordsBy parse (before ++ record :: after) selected base = .ok t)
    (reached : t.quarterAt? index = some record.quarter)
    (alone : ∀ other ∈ before ++ after, other.quarter = record.quarter →
      normalizeKey other.metricName ≠ normalizeKey record.metricName)
    (value : normalizeValue record.metricValue (some record.metricName) = .ok (some x))
    (same : normalizeKey name = normalizeKey record.metricName) :
    t.resolve name index =
      { value := some x, quarter := some record.quarter, index, usedFallback := false } := by
  have found : find? (t.metricsOf record.quarter) name = some x := by
    rw [(metricsOf_ofRecords built (Table.mem_of_quarterAt? reached)).1, scan?_of_alone alone same,
      decimalOf, value]
    rfl
  unfold Table.resolve
  simp only [reached, found]

/-- Sales under a spelling of their own. -/
def netSales : Record :=
  { ticker := "A", quarter := "Mar 2024", metricName := "Net Sales (%)",
    metricValue := some (.text "120") }

/-- Other metrics of the quarter, and the sales of another. -/
def besidesSales : List Record := [
  { ticker := "A", quarter := "Mar 2024", metricName := "Sales",
    metricValue := some (.text "80") },
  { ticker := "A", quarter := "Mar 2024", metricName := "Net Sales Growth",
    metricValue := some (.text "7%") },
  { ticker := "A", quarter := "Dec 2023", metricName := "netsales" }]

theorem resolve_netSales : ∃ t x,
    Table.ofRecords (besidesSales ++ netSales :: besidesSales) [] none = .ok t ∧
    t.quarterAt? 2 = some netSales.quarter ∧
    (∀ other ∈ besidesSales ++ besidesSales, other.quarter = netSales.quarter →
      normalizeKey other.metricName ≠ normalizeKey netSales.metricName) ∧
    normalizeValue netSales.metricValue (some netSales.metricName) = .ok (some x) ∧
    normalizeKey "NET sales" = normalizeKey netSales.metricName ∧
    t.resolve "NET sales" 2 =
      { value := some x, quarter := some "Mar 2024", index := 2, usedFallback := false } := by
  have sorted : Quarter.sortBy Quarter.parseLabel?
      ((besidesSales ++ netSales :: besidesSales).map (·.quarter)) =
        .ok ["Mar 2024", "Dec 2023"] :=
    Quarter.sortBy_eq_ok_iff.mpr (.inl ⟨by decide +kernel, by decide +kernel,
      fun label => by grind [besidesSales, netSales], by decide +kernel⟩)
  have values : Valued (besidesSales ++ netSales :: besidesSales)
      (window ["Mar 2024", "Dec 2023"] []) := by
    rintro record mem - ⟨i, value, -⟩
    simp only [besidesSales, netSales] at mem
    grind
  have alone : ∀ other ∈ besidesSales ++ besidesSales, other.quarter = netSales.quarter →
      normalizeKey other.metricName ≠ normalizeKey netSales.metricName := by decide +kernel
  have number : (decimalOf netSales).isSome = true := by decide +kernel
  have same : normalizeKey "NET sales" = normalizeKey netSales.metricName := by decide +kernel
  obtain ⟨t, built, quarters, size⟩ := exists_ofRecords none sorted values
  have window : t.quarters = ["Mar 2024", "Dec 2023"] := quarters
  have reached : t.quarterAt? 2 = some netSales.quarter := by
    rw [Table.quarterAt?, size, window]
    rfl
  obtain ⟨x, hx⟩ := Option.isSome_iff_exists.mp number
  have value : normalizeValue netSales.metricValue (some netSales.metricName) = .ok (some x) :=
    normalizeValue_of_decimalOf hx
  exact ⟨t, x, built, reached, alone, value, same,
    resolve_any_spelling built reached alone value same⟩

end Quarterly.Metric
