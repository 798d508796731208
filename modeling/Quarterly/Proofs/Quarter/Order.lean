import Quarterly.Quarter.Order

/-!
# Quarters in order

What `sortBy` answers, said without its steps: the labels of a list, each once, in one of two strict
orders (`Listed`). The date decides when every label has one, and the label itself otherwise. A
strict order leaves no choice, so there is one such answer for the labels taken as a set
(`Listed.unique`), and taking some labels out of it keeps what is left in order (`Listed.filter`).
-/

namespace Quarterly.Quarter

/-! ### Each element once -/

section

variable {α : Type} [BEq α] [LawfulBEq α] {elements : List α} {x : α}

theorem mem_distinct : x ∈ distinct elements ↔ x ∈ elements := by
  induction elements with
  | nil => rfl
  | cons y rest ih =>
    unfold distinct
    rw [List.mem_cons, List.mem_cons, List.mem_filter, ih]
    by_cases same : x = y
    · simp [same]
    · simp [same]

theorem nodup_distinct : (distinct elements).Nodup := by
  induction elements with
  | nil => exact List.nodup_nil
  | cons y rest ih =>
    unfold distinct
    exact List.nodup_cons.mpr ⟨by simp, ih.filter _⟩

theorem distinct_concat [DecidableEq α] : distinct (elements ++ [x]) =
    if x ∈ elements then distinct elements else distinct elements ++ [x] := by
  induction elements with
  | nil => rfl
  | cons y rest ih =>
    rw [List.cons_append]
    unfold distinct
    rw [ih]
    by_cases inside : x ∈ rest
    · simp [inside]
    · rw [if_neg inside, List.filter_append]
      by_cases same : x = y
      · simp [same]
      · simp [inside, same]

end

/-! ### Labels in a strict order -/

/-- The labels of a list, one after the other in a given order. -/
structure Listed (before : String → String → Prop) (labels sorted : List String) : Prop where
  mem_iff : ∀ label, label ∈ sorted ↔ label ∈ labels
  order : sorted.Pairwise before

namespace Listed

variable {before : String → String → Prop} {labels sorted sorted' : List String}

/-- A label that is before no other in both directions is there once. -/
theorem nodup (h : Listed before labels sorted) (irrefl : ∀ a, ¬ before a a) : sorted.Nodup := by
  apply h.order.imp
  rintro a _ hab rfl
  exact irrefl a hab

/-- An order without ties leaves no choice. -/
theorem unique (asymm : ∀ a b, before a b → ¬ before b a) (h : Listed before labels sorted)
    (h' : Listed before labels sorted') : sorted = sorted' := by
  have irrefl : ∀ a, ¬ before a a := fun a haa => asymm a a haa haa
  have perm : sorted.Perm sorted' :=
    (List.perm_ext_iff_of_nodup (h.nodup irrefl) (h'.nodup irrefl)).mpr fun label =>
      (h.mem_iff label).trans (h'.mem_iff label).symm
  exact perm.eq_of_pairwise (fun a b _ _ hab hba => absurd hba (asymm a b hab)) h.order h'.order

/-- The place of a label is the number of labels before it. -/
theorem countP_before [DecidableRel before] (asymm : ∀ a b, before a b → ¬ before b a)
    (order : sorted.Pairwise before) {place : Nat} {label : String}
    (h : sorted[place]? = some label) : sorted.countP (fun other => before other label) = place := by
  induction sorted generalizing place with
  | nil => simp at h
  | cons first rest ih =>
    obtain ⟨later, order⟩ := List.pairwise_cons.mp order
    cases place with
    | zero =>
      obtain rfl : first = label := by simpa using h
      have none : ∀ other ∈ first :: rest, ¬ before other first := by
        rintro other inside backward
        rcases List.mem_cons.mp inside with rfl | behind
        · exact asymm other other backward backward
        · exact asymm first other (later other behind) backward
      exact List.countP_eq_zero.mpr (by simpa using none)
    | succ place =>
      have behind : rest[place]? = some label := by simpa using h
      have first : before first label := later label (List.mem_of_getElem? behind)
      rw [List.countP_cons, ih order behind]
      simp [first]

theorem filter (h : Listed before labels sorted) (keep : String → Bool) :
    Listed before (labels.filter keep) (sorted.filter keep) where
  mem_iff label := by rw [List.mem_filter, List.mem_filter, h.mem_iff]
  order := h.order.filter keep

end Listed

/-! ### By date and by label -/

namespace Dated

theorem precedes_iff {a b : Dated} : a.precedes b = true ↔
    b.moment.position < a.moment.position ∨
      a.moment.position = b.moment.position ∧ b.label < a.label := by
  simp [precedes]

theorem not_precedes_iff {a b : Dated} : (!b.precedes a) = true ↔
    b.moment.position ≤ a.moment.position ∧
      (b.moment.position = a.moment.position → b.label ≤ a.label) := by
  rw [Bool.not_eq_true', Bool.eq_false_iff, ne_eq, precedes_iff, not_or, Int.not_lt, not_and]
  simp only [String.not_lt]

/-- Not to come after is transitive. -/
theorem notAfter_trans (a b c : Dated) (hab : (!b.precedes a) = true)
    (hbc : (!c.precedes b) = true) : (!c.precedes a) = true := by
  rw [not_precedes_iff] at hab hbc ⊢
  refine ⟨Int.le_trans hbc.1 hab.1, fun same => ?_⟩
  have hb : c.moment.position = b.moment.position := by omega
  have ha : b.moment.position = a.moment.position := by omega
  exact String.le_trans (hbc.2 hb) (hab.2 ha)

/-- Of two quarters one does not come after the other. -/
theorem notAfter_total (a b : Dated) : (!b.precedes a || !a.precedes b) = true := by
  rw [Bool.or_eq_true, not_precedes_iff, not_precedes_iff]
  rcases Int.lt_trichotomy a.moment.position b.moment.position with before | same | after
  · exact .inr ⟨by omega, fun h => absurd h (by omega)⟩
  · rcases String.le_total a.label b.label with le | le
    · exact .inr ⟨by omega, fun _ => le⟩
    · exact .inl ⟨by omega, fun _ => le⟩
  · exact .inl ⟨by omega, fun h => absurd h (by omega)⟩

/-- Two quarters with labels of their own never tie. -/
theorem precedes_of_notAfter {a b : Dated} (notAfter : (!b.precedes a) = true)
    (different : a.label ≠ b.label) : a.precedes b = true := by
  rw [not_precedes_iff] at notAfter
  rw [precedes_iff]
  obtain ⟨position, label⟩ := notAfter
  by_cases same : b.moment.position = a.moment.position
  · refine .inr ⟨same.symm, ?_⟩
    rw [← String.not_le]
    exact fun le => different (String.le_antisymm le (label same))
  · exact .inl (by omega)

end Dated

section

variable (parse : String → Option Moment)

/-- Two labels have dates, and the first is newer or of the same date and later by its label. -/
def Newer (a b : String) : Prop :=
  ∃ m n, parse a = some m ∧ parse b = some n ∧ Dated.precedes ⟨a, m⟩ ⟨b, n⟩ = true

/-- The order of labels that do not all have dates. -/
def LaterLabel (a b : String) : Prop := b < a

/-- Every label has a date. -/
def AllDated (labels : List String) : Prop := ∀ label ∈ labels, ∃ moment, parse label = some moment

/-- The date of some label knows its distance to universal time and that of another does not. -/
def MixesZones (labels : List String) : Prop :=
  (∃ label ∈ labels, (parse label).any (·.isAware) = true) ∧
    ∃ label ∈ labels, (parse label).any (!·.isAware) = true

instance (a b : String) : Decidable (Newer parse a b) :=
  decidable_of_iff ((parse a).any fun m => (parse b).any fun n => Dated.precedes ⟨a, m⟩ ⟨b, n⟩) (by
    unfold Newer
    cases parse a <;> cases parse b <;> simp)

instance (a b : String) : Decidable (LaterLabel a b) := inferInstanceAs (Decidable (b < a))

instance (labels : List String) : Decidable (AllDated parse labels) :=
  decidable_of_iff (∀ label ∈ labels, (parse label).isSome = true) (by
    simp only [AllDated, Option.isSome_iff_exists])

instance (labels : List String) : Decidable (MixesZones parse labels) :=
  inferInstanceAs (Decidable (_ ∧ _))

end

variable {parse : String → Option Moment} {labels sorted : List String} {dated : List Dated}

theorem Newer.asymm (a b : String) (hab : Newer parse a b) : ¬ Newer parse b a := by
  rintro ⟨n', m', hb', ha', hba⟩
  obtain ⟨m, n, ha, hb, hab⟩ := hab
  obtain rfl : m = m' := Option.some.inj (ha.symm.trans ha')
  obtain rfl : n = n' := Option.some.inj (hb.symm.trans hb')
  rw [Dated.precedes_iff] at hab hba
  rcases hab with later | ⟨same, label⟩
  · rcases hba with later' | ⟨same', _⟩ <;> dsimp only at * <;> omega
  · rcases hba with later' | ⟨_, label'⟩
    · dsimp only at *
      omega
    · exact String.lt_asymm label label'

theorem LaterLabel.asymm (a b : String) (hab : LaterLabel a b) : ¬ LaterLabel b a :=
  String.lt_asymm hab

/-! ### Sorting -/

theorem map_label_of_datedAll? (h : datedAll? parse labels = some dated) :
    dated.map (·.label) = labels ∧ ∀ d ∈ dated, parse d.label = some d.moment := by
  induction labels generalizing dated with
  | nil =>
    cases h
    exact ⟨rfl, by simp⟩
  | cons label rest ih =>
    unfold datedAll? at h
    obtain ⟨moment, hm, h⟩ := Option.bind_eq_some_iff.mp h
    obtain ⟨others, ho, h⟩ := Option.bind_eq_some_iff.mp h
    cases h
    obtain ⟨same, dates⟩ := ih ho
    exact ⟨by rw [List.map_cons, same], List.forall_mem_cons.mpr ⟨hm, dates⟩⟩

theorem exists_datedAll? (h : AllDated parse labels) :
    ∃ dated, datedAll? parse labels = some dated := by
  induction labels with
  | nil => exact ⟨[], rfl⟩
  | cons label rest ih =>
    obtain ⟨moment, hm⟩ := h label List.mem_cons_self
    obtain ⟨others, ho⟩ := ih fun other inside => h other (List.mem_cons_of_mem _ inside)
    refine ⟨⟨label, moment⟩ :: others, ?_⟩
    unfold datedAll?
    rw [hm, ho]
    rfl

theorem allDated_of_datedAll? (h : datedAll? parse labels = some dated) :
    AllDated parse labels := by
  obtain ⟨same, dates⟩ := map_label_of_datedAll? h
  intro label inside
  rw [← same] at inside
  obtain ⟨d, hd, rfl⟩ := List.mem_map.mp inside
  exact ⟨d.moment, dates d hd⟩

theorem allDated_distinct : AllDated parse (distinct labels) ↔ AllDated parse labels := by
  simp only [AllDated, mem_distinct]

/-- A question about the date of some label, asked of the labels with their dates. -/
theorem any_datedAll? (h : datedAll? parse (distinct labels) = some dated) (ask : Moment → Bool) :
    dated.any (fun d => ask d.moment) = true ↔
      ∃ label ∈ labels, (parse label).any ask = true := by
  obtain ⟨same, dates⟩ := map_label_of_datedAll? h
  have members : ∀ label, label ∈ labels ↔ ∃ d ∈ dated, d.label = label := by
    intro label
    rw [← mem_distinct, ← same, List.mem_map]
  rw [List.any_eq_true]
  constructor
  · rintro ⟨d, hd, answer⟩
    exact ⟨d.label, (members _).mpr ⟨d, hd, rfl⟩, by rw [dates d hd]; exact answer⟩
  · rintro ⟨label, inside, answer⟩
    obtain ⟨d, hd, rfl⟩ := (members label).mp inside
    rw [dates d hd] at answer
    exact ⟨d, hd, answer⟩

/-- Sorting quarters with dates by their dates lists their labels by date. -/
theorem listed_mergeSort (h : datedAll? parse (distinct labels) = some dated) :
    Listed (Newer parse) labels ((dated.mergeSort fun a b => !b.precedes a).map (·.label)) := by
  obtain ⟨same, dates⟩ := map_label_of_datedAll? h
  have perm := List.mergeSort_perm dated fun a b => !b.precedes a
  have labelsPerm := perm.map (·.label)
  rw [same] at labelsPerm
  refine ⟨fun label => labelsPerm.mem_iff.trans mem_distinct, List.pairwise_map.mpr ?_⟩
  have notAfter := List.pairwise_mergeSort Dated.notAfter_trans Dated.notAfter_total dated
  have different : (dated.mergeSort fun a b => !b.precedes a).Pairwise
      fun a b => a.label ≠ b.label :=
    List.pairwise_map.mp (labelsPerm.nodup_iff.mpr nodup_distinct)
  refine (notAfter.and different).imp_of_mem ?_
  rintro a b ha hb ⟨order, labels⟩
  exact ⟨a.moment, b.moment, dates a (perm.mem_iff.mp ha), dates b (perm.mem_iff.mp hb),
    Dated.precedes_of_notAfter order labels⟩

theorem sortBy_of_mixesZones (dates : AllDated parse labels) (mixes : MixesZones parse labels) :
    sortBy parse labels = .error .mixedZones := by
  obtain ⟨dated, hd⟩ := exists_datedAll? (allDated_distinct.mpr dates)
  unfold sortBy
  simp only [hd]
  refine if_pos ?_
  rw [Bool.and_eq_true]
  exact ⟨(any_datedAll? hd (·.isAware)).mpr mixes.1, (any_datedAll? hd (!·.isAware)).mpr mixes.2⟩

theorem sortBy_of_allDated (dates : AllDated parse labels) (zones : ¬ MixesZones parse labels) :
    ∃ sorted, sortBy parse labels = .ok sorted ∧ Listed (Newer parse) labels sorted := by
  obtain ⟨dated, hd⟩ := exists_datedAll? (allDated_distinct.mpr dates)
  refine ⟨_, ?_, listed_mergeSort hd⟩
  unfold sortBy
  simp only [hd]
  refine if_neg fun both => zones ?_
  rw [Bool.and_eq_true] at both
  exact ⟨(any_datedAll? hd (·.isAware)).mp both.1, (any_datedAll? hd (!·.isAware)).mp both.2⟩

theorem sortBy_of_not_allDated (undated : ¬ AllDated parse labels) :
    ∃ sorted, sortBy parse labels = .ok sorted ∧ Listed LaterLabel labels sorted := by
  have missing : datedAll? parse (distinct labels) = none := by
    cases h : datedAll? parse (distinct labels) with
    | none => rfl
    | some dated => exact absurd (allDated_distinct.mp (allDated_of_datedAll? h)) undated
  have perm := List.mergeSort_perm (distinct labels) fun a b => !(a < b)
  refine ⟨(distinct labels).mergeSort fun a b => !(a < b), ?_, ?_, ?_⟩
  · unfold sortBy
    simp only [missing]
    rfl
  · exact fun label => perm.mem_iff.trans mem_distinct
  · have notBefore := @List.pairwise_mergeSort String (fun a b => !(a < b))
      (fun a b c hab hbc => by
        simp only [Bool.not_eq_true', decide_eq_false_iff_not, String.not_lt] at *
        exact String.le_trans hbc hab)
      (fun a b => by
        simp only [Bool.or_eq_true, Bool.not_eq_true', decide_eq_false_iff_not, String.not_lt]
        exact (String.le_total a b).symm) (distinct labels)
    have different : ((distinct labels).mergeSort fun a b => !(a < b)).Nodup :=
      perm.nodup_iff.mpr nodup_distinct
    refine (notBefore.and different).imp ?_
    rintro a b ⟨order, labels⟩
    simp only [Bool.not_eq_true', decide_eq_false_iff_not, String.not_lt] at order
    unfold LaterLabel
    rw [← String.not_le]
    exact fun le => labels (String.le_antisymm le order)

/-- When labels can be put in order, and which order that is. -/
theorem sortBy_eq_ok_iff : sortBy parse labels = .ok sorted ↔
    AllDated parse labels ∧ ¬ MixesZones parse labels ∧ Listed (Newer parse) labels sorted ∨
      ¬ AllDated parse labels ∧ Listed LaterLabel labels sorted := by
  by_cases dates : AllDated parse labels
  · by_cases zones : MixesZones parse labels
    · simp [sortBy_of_mixesZones dates zones, dates, zones]
    · obtain ⟨sorted', hs, listed⟩ := sortBy_of_allDated dates zones
      rw [hs, Except.ok.injEq]
      constructor
      · rintro rfl
        exact .inl ⟨dates, zones, listed⟩
      · rintro (⟨_, _, listed'⟩ | ⟨undated, _⟩)
        · exact listed.unique Newer.asymm listed'
        · exact absurd dates undated
  · obtain ⟨sorted', hs, listed⟩ := sortBy_of_not_allDated dates
    rw [hs, Except.ok.injEq]
    constructor
    · rintro rfl
      exact .inr ⟨dates, listed⟩
    · rintro (⟨dates', _⟩ | ⟨_, listed'⟩)
      · exact absurd dates' dates
      · exact listed.unique LaterLabel.asymm listed'

/-- When labels cannot be put in order. -/
theorem sortBy_eq_error_iff {cause : OrderFault} : sortBy parse labels = .error cause ↔
    cause = .mixedZones ∧ AllDated parse labels ∧ MixesZones parse labels := by
  by_cases both : AllDated parse labels ∧ MixesZones parse labels
  · rw [sortBy_of_mixesZones both.1 both.2, Except.error.injEq]
    exact ⟨fun h => ⟨h.symm, both⟩, fun h => h.1.symm⟩
  · have sorts : ∃ sorted, sortBy parse labels = .ok sorted := by
      by_cases dates : AllDated parse labels
      · obtain ⟨sorted, hs, _⟩ := sortBy_of_allDated dates fun zones => both ⟨dates, zones⟩
        exact ⟨sorted, hs⟩
      · obtain ⟨sorted, hs, _⟩ := sortBy_of_not_allDated dates
        exact ⟨sorted, hs⟩
    obtain ⟨sorted, hs⟩ := sorts
    rw [hs]
    exact iff_of_false nofun fun h => both h.2

theorem mem_of_sortBy (h : sortBy parse labels = .ok sorted) (label : String) :
    label ∈ sorted ↔ label ∈ labels := by
  rcases sortBy_eq_ok_iff.mp h with ⟨_, _, listed⟩ | ⟨_, listed⟩
  · exact listed.mem_iff label
  · exact listed.mem_iff label

theorem nodup_of_sortBy (h : sortBy parse labels = .ok sorted) : sorted.Nodup := by
  rcases sortBy_eq_ok_iff.mp h with ⟨_, _, listed⟩ | ⟨_, listed⟩
  · exact listed.nodup fun a haa => Newer.asymm a a haa haa
  · exact listed.nodup fun a haa => LaterLabel.asymm a a haa haa

/-! ### Labels as a set -/

section

variable {labels' : List String} (same : ∀ label, label ∈ labels' ↔ label ∈ labels)

include same

theorem allDated_congr : AllDated parse labels' ↔ AllDated parse labels := by
  simp only [AllDated, same]

theorem mixesZones_congr : MixesZones parse labels' ↔ MixesZones parse labels := by
  simp only [MixesZones, same]

theorem Listed.congr {before : String → String → Prop} (h : Listed before labels sorted) :
    Listed before labels' sorted where
  mem_iff label := (h.mem_iff label).trans (same label).symm
  order := h.order

/-- Sorting sees neither where a label stands nor how often. -/
theorem sortBy_congr : sortBy parse labels' = sortBy parse labels := by
  cases h : sortBy parse labels with
  | ok sorted =>
    rw [sortBy_eq_ok_iff] at h ⊢
    rcases h with ⟨dates, zones, listed⟩ | ⟨undated, listed⟩
    · exact .inl ⟨(allDated_congr same).mpr dates, mt (mixesZones_congr same).mp zones,
        listed.congr same⟩
    · exact .inr ⟨mt (allDated_congr same).mp undated, listed.congr same⟩
  | error cause =>
    rw [sortBy_eq_error_iff] at h ⊢
    obtain ⟨only, dates, mixes⟩ := h
    exact ⟨only, (allDated_congr same).mpr dates, (mixesZones_congr same).mpr mixes⟩

end

/-- Labels whose dates can be put in order have one order: each of them once, whatever list they
come in, strictly newest first by date and label if all have dates and by label otherwise. -/
theorem sortBy_canonical (comparable : ¬ MixesZones parse labels) : ∃ sorted,
    sortBy parse labels = .ok sorted ∧
      sorted.Nodup ∧ (∀ label, label ∈ sorted ↔ label ∈ labels) ∧
      (∀ labels', (∀ label, label ∈ labels' ↔ label ∈ labels) →
        sortBy parse labels' = .ok sorted) ∧
      (AllDated parse labels → sorted.Pairwise (Newer parse)) ∧
      (¬ AllDated parse labels → sorted.Pairwise LaterLabel) := by
  have sorts : ∃ sorted, sortBy parse labels = .ok sorted := by
    cases h : sortBy parse labels with
    | ok sorted => exact ⟨sorted, rfl⟩
    | error cause => exact absurd (sortBy_eq_error_iff.mp h).2.2 comparable
  obtain ⟨sorted, hs⟩ := sorts
  refine ⟨sorted, hs, nodup_of_sortBy hs, mem_of_sortBy hs,
    fun labels' same => (sortBy_congr same).trans hs, fun dates => ?_, fun undated => ?_⟩
  · rcases sortBy_eq_ok_iff.mp hs with ⟨_, _, listed⟩ | ⟨undated, _⟩
    · exact listed.order
    · exact absurd dates undated
  · rcases sortBy_eq_ok_iff.mp hs with ⟨dates, _⟩ | ⟨_, listed⟩
    · exact absurd dates undated
    · exact listed.order

/-- Two labels of one date, one of them twice, beside a newer one. -/
def sharedDates : List String := ["Mar 2024", "2024-03-01", "Jun 2024", "Mar 2024"]

theorem dates_sharedDates :
    AllDated parseLabel? sharedDates ∧ ¬ MixesZones parseLabel? sharedDates := by
  decide +kernel

theorem sort_sharedDates :
    sortBy parseLabel? sharedDates = .ok ["Jun 2024", "Mar 2024", "2024-03-01"] :=
  sortBy_eq_ok_iff.mpr (.inl ⟨dates_sharedDates.1, dates_sharedDates.2,
    ⟨fun label => by grind [sharedDates], by decide +kernel⟩⟩)

theorem sortBy_canonical_sharedDates : ¬ MixesZones parseLabel? sharedDates ∧
    sort sharedDates.reverse = .ok ["Jun 2024", "Mar 2024", "2024-03-01"] := by
  have ⟨_, comparable⟩ := dates_sharedDates
  obtain ⟨sorted, hs, _, _, anyOrder, _⟩ := sortBy_canonical comparable
  obtain rfl : sorted = _ := Except.ok.inj (hs.symm.trans sort_sharedDates)
  exact ⟨comparable, anyOrder sharedDates.reverse fun label => List.mem_reverse⟩

end Quarterly.Quarter
