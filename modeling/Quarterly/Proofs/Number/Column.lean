import Quarterly.Number.Column

/-!
# When the integers of a column become doubles

A column is looked through entry by entry, and what was found so far settles whether its integers
become doubles. Said of the column as a whole (`Unites`): there are only numbers and missing
entries, one of them no integer, and its integers fit into sixty-four bits together. Each entry
moves from the condition on it and the rest to that on the rest alone (`unitesAfter_cons_missing`
and its like), so that the walk comes to `Unites` (`wantsDoubles_eq_true_iff`).
-/

namespace Quarterly.Column

/-- The integers of a column become doubles: it has only numbers and missing entries, one of them
is no integer, and the integers have doubles and fit into sixty-four bits together, all of them
with a sign or all of them without. -/
structure Unites (kinds : List Kind) : Prop where
  numeric : ∀ kind ∈ kinds, kind = .missing ∨ ∃ n, kind = .number n
  double : .missing ∈ kinds ∨ ∃ x, .number (.double x) ∈ kinds
  fits : ∀ i, .number (.int i) ∈ kinds →
    (∃ x, (Number.int i).toDouble = .ok x) ∧ -0x8000000000000000 ≤ i ∧ i < 0x10000000000000000
  together : (∃ i : Int, .number (.int i) ∈ kinds ∧ i < 0) →
    ¬ ∃ i : Int, .number (.int i) ∈ kinds ∧ 0x8000000000000000 ≤ i

/-- The integers of a column become doubles, after something was found in entries before it. -/
structure UnitesAfter (found : Found) (kinds : List Kind) : Prop where
  numeric : found.truths = false ∧ ∀ kind ∈ kinds, kind = .missing ∨ ∃ n, kind = .number n
  double : found.doubles = true ∨ .missing ∈ kinds ∨ ∃ x, .number (.double x) ∈ kinds
  fits : ∀ i, .number (.int i) ∈ kinds →
    (∃ x, (Number.int i).toDouble = .ok x) ∧ -0x8000000000000000 ≤ i ∧ i < 0x10000000000000000
  together : (found.negative = true ∨ ∃ i : Int, .number (.int i) ∈ kinds ∧ i < 0) →
    ¬ (found.large = true ∨ ∃ i : Int, .number (.int i) ∈ kinds ∧ 0x8000000000000000 ≤ i)

/-- What has been found after an integer. -/
def Found.withInt (found : Found) (i : Int) : Found :=
  { found with negative := found.negative || i < 0, large := found.large || 0x8000000000000000 ≤ i }

@[simp] theorem Found.withInt_doubles (found : Found) (i : Int) :
    (found.withInt i).doubles = found.doubles := rfl

@[simp] theorem Found.withInt_truths (found : Found) (i : Int) :
    (found.withInt i).truths = found.truths := rfl

variable {found : Found} {kinds rest : List Kind} {i : Int} {x : Float}

theorem unitesAfter_nothing : UnitesAfter {} kinds ↔ Unites kinds := by
  constructor
  · intro h
    exact ⟨h.numeric.2, by simpa using h.double, h.fits, by simpa using h.together⟩
  · intro h
    exact ⟨⟨rfl, h.numeric⟩, .inr h.double, h.fits, by simpa using h.together⟩

theorem unitesAfter_nil (apart : (found.negative && found.large) = false) :
    UnitesAfter found [] ↔ (found.doubles && !found.truths) = true := by
  constructor
  · intro h
    have doubles : found.doubles = true := by simpa using h.double
    simp [doubles, h.numeric.1]
  · intro h
    rw [Bool.and_eq_true, Bool.not_eq_true'] at h
    exact ⟨⟨h.2, by simp⟩, .inl h.1, by simp, by simpa using apart⟩

theorem unitesAfter_cons_missing : UnitesAfter found (.missing :: rest) ↔
    UnitesAfter { found with doubles := true } rest := by
  constructor
  · intro h
    exact ⟨by simpa using h.numeric, .inl rfl, by simpa using h.fits, by simpa using h.together⟩
  · intro h
    exact ⟨by simpa using h.numeric, by simp, by simpa using h.fits, by simpa using h.together⟩

theorem unitesAfter_cons_double : UnitesAfter found (.number (.double x) :: rest) ↔
    UnitesAfter { found with doubles := true } rest := by
  constructor
  · intro h
    exact ⟨by simpa using h.numeric, .inl rfl, by simpa using h.fits, by simpa using h.together⟩
  · intro h
    exact ⟨by simpa using h.numeric, .inr (.inr ⟨x, by simp⟩), by simpa using h.fits,
      by simpa using h.together⟩

theorem unitesAfter_cons_truth : UnitesAfter found (.truth :: rest) ↔
    UnitesAfter { found with truths := true } rest := by
  constructor
  · intro h
    simpa using h.numeric.2 .truth
  · intro h
    cases h.numeric.1

/-- Integers with a sign and integers that need all bits do not stand together. -/
def Together (found : Found) (kinds : List Kind) : Prop :=
  (found.negative = true ∨ ∃ i : Int, .number (.int i) ∈ kinds ∧ i < 0) →
    ¬ (found.large = true ∨ ∃ i : Int, .number (.int i) ∈ kinds ∧ 0x8000000000000000 ≤ i)

theorem together_cons_int :
    Together found (.number (.int i) :: rest) ↔ Together (found.withInt i) rest := by
  have negative : (found.negative = true ∨
      ∃ j : Int, Kind.number (.int j) ∈ .number (.int i) :: rest ∧ j < 0) ↔
      ((found.withInt i).negative = true ∨ ∃ j : Int, Kind.number (.int j) ∈ rest ∧ j < 0) := by
    simp only [Found.withInt, List.mem_cons, Bool.or_eq_true, decide_eq_true_eq]
    grind
  have large : (found.large = true ∨
      ∃ j : Int, Kind.number (.int j) ∈ .number (.int i) :: rest ∧ 0x8000000000000000 ≤ j) ↔
      ((found.withInt i).large = true ∨
        ∃ j : Int, Kind.number (.int j) ∈ rest ∧ 0x8000000000000000 ≤ j) := by
    simp only [Found.withInt, List.mem_cons, Bool.or_eq_true, decide_eq_true_eq]
    grind
  unfold Together
  rw [negative, large]

theorem unitesAfter_cons_int (has : (Number.int i).toDouble = .ok x) (low : -0x8000000000000000 ≤ i)
    (high : i < 0x10000000000000000) :
    UnitesAfter found (.number (.int i) :: rest) ↔ UnitesAfter (found.withInt i) rest := by
  constructor
  · intro h
    exact ⟨by simpa using h.numeric, by simpa using h.double,
      fun j inside => h.fits j (List.mem_cons_of_mem _ inside), together_cons_int.mp h.together⟩
  · intro h
    refine ⟨by simpa using h.numeric, by simpa using h.double, fun j inside => ?_,
      together_cons_int.mpr h.together⟩
    rcases List.mem_cons.mp inside with same | inside
    · cases same
      exact ⟨⟨x, has⟩, low, high⟩
    · exact h.fits j inside

/-- An integer settles that nothing is changed: it does not fit into sixty-four bits, by itself or
together with what was found before it. -/
def Found.Settles (found : Found) (i : Int) : Prop :=
  i < -0x8000000000000000 ∨ 0x10000000000000000 ≤ i ∨
    ((found.withInt i).negative && (found.withInt i).large) = true

instance (found : Found) (i : Int) : Decidable (found.Settles i) :=
  inferInstanceAs (Decidable (_ ∨ _ ∨ _))

theorem not_settles (low : -0x8000000000000000 ≤ i) (high : i < 0x10000000000000000)
    (together : Together (found.withInt i) kinds) : ¬ found.Settles i := by
  intro settled
  have clash := (settled.resolve_left (by omega)).resolve_left (by omega)
  rw [Bool.and_eq_true] at clash
  exact together (.inl clash.1) (.inl clash.2)

theorem fits_of_not_settles (h : ¬ found.Settles i) :
    -0x8000000000000000 ≤ i ∧ i < 0x10000000000000000 ∧
      ((found.withInt i).negative && (found.withInt i).large) = false := by
  obtain ⟨low, high, apart⟩ : _ ∧ _ ∧ _ := by simpa only [Found.Settles, not_or] using h
  exact ⟨Int.not_lt.mp low, Int.not_le.mp high, by simpa using apart⟩

theorem wantsDoubles_cons_int (has : (Number.int i).toDouble = .ok x) :
    wantsDoubles found (.number (.int i) :: rest) =
      if found.Settles i then .ok false else wantsDoubles (found.withInt i) rest := by
  rw [wantsDoubles, has]
  change (if (i < -0x8000000000000000 || 0x10000000000000000 ≤ i ||
      ((found.withInt i).negative && (found.withInt i).large)) = true then _ else _) = _
  simp only [Bool.or_eq_true, decide_eq_true_eq, or_assoc]
  rfl

theorem wantsDoubles_cons_tooLarge {cause : NumericFault}
    (has : (Number.int i).toDouble = .error cause) :
    wantsDoubles found (.number (.int i) :: rest) = .error cause := by
  rw [wantsDoubles, has]
  rfl

/-- An entry that is no number settles that nothing is changed, and so does an integer that does
not fit. -/
theorem wantsDoubles_eq_true_iff (apart : (found.negative && found.large) = false) :
    wantsDoubles found kinds = .ok true ↔ UnitesAfter found kinds := by
  induction kinds generalizing found with
  | nil =>
    rw [unitesAfter_nil apart]
    exact ⟨Except.ok.inj, congrArg Except.ok⟩
  | cons kind rest ih =>
    cases kind with
    | missing =>
      rw [unitesAfter_cons_missing]
      exact ih apart
    | truth =>
      rw [unitesAfter_cons_truth]
      exact ih apart
    | other =>
      constructor
      · intro h
        cases h
      · intro h
        simpa using h.numeric.2 .other
    | number n =>
      cases n with
      | double x =>
        rw [unitesAfter_cons_double]
        exact ih apart
      | int i =>
        cases has : (Number.int i).toDouble with
        | error cause =>
          rw [wantsDoubles_cons_tooLarge has]
          constructor
          · intro h
            cases h
          · intro h
            obtain ⟨⟨x, hx⟩, _⟩ := h.fits i List.mem_cons_self
            cases has.symm.trans hx
        | ok x =>
          rw [wantsDoubles_cons_int has]
          by_cases settled : found.Settles i
          · rw [if_pos settled]
            constructor
            · intro h
              cases h
            · intro h
              obtain ⟨_, low, high⟩ := h.fits i List.mem_cons_self
              have after := (unitesAfter_cons_int has low high).mp h
              exact absurd settled (not_settles low high after.together)
          · rw [if_neg settled]
            obtain ⟨low, high, apart⟩ := fits_of_not_settles settled
            exact (ih apart).trans (unitesAfter_cons_int has low high).symm

/-- Only an integer without a double keeps a column from being looked through. -/
theorem exists_of_wantsDoubles_error {cause : NumericFault}
    (h : wantsDoubles found kinds = .error cause) :
    ∃ i, .number (.int i) ∈ kinds ∧ (Number.int i).toDouble = .error cause := by
  induction kinds generalizing found with
  | nil => cases h
  | cons kind rest ih =>
    have later : ∀ {found}, wantsDoubles found rest = .error cause →
        ∃ i, .number (.int i) ∈ kind :: rest ∧ (Number.int i).toDouble = .error cause := by
      intro found h
      obtain ⟨i, inside, large⟩ := ih h
      exact ⟨i, List.mem_cons_of_mem _ inside, large⟩
    cases kind with
    | missing => exact later h
    | truth => exact later h
    | other => cases h
    | number n =>
      cases n with
      | double x => exact later h
      | int i =>
        cases has : (Number.int i).toDouble with
        | error fault =>
          rw [wantsDoubles_cons_tooLarge has] at h
          cases h
          exact ⟨i, List.mem_cons_self, has⟩
        | ok x =>
          rw [wantsDoubles_cons_int has] at h
          split at h
          · cases h
          · exact later h

/-! ### Columns that cannot be looked through -/

/-- Entries settle nothing, after something was found in entries before them: each is a number, a
truth value or missing, and the integers have doubles and fit into sixty-four bits together. -/
structure UnsettledAfter (found : Found) (kinds : List Kind) : Prop where
  noOther : .other ∉ kinds
  fits : ∀ i, .number (.int i) ∈ kinds →
    (∃ x, (Number.int i).toDouble = .ok x) ∧ -0x8000000000000000 ≤ i ∧ i < 0x10000000000000000
  together : Together found kinds

/-- An integer without a double stands behind entries that settle nothing. -/
def BreaksAfter (found : Found) (kinds : List Kind) : Prop :=
  ∃ before i rest, kinds = before ++ .number (.int i) :: rest ∧ UnsettledAfter found before ∧
    ∃ cause, (Number.int i).toDouble = .error cause

/-- An integer without a double is come across before it is settled that nothing is changed. -/
def Breaks (kinds : List Kind) : Prop := BreaksAfter {} kinds

theorem unsettledAfter_nil (apart : (found.negative && found.large) = false) :
    UnsettledAfter found [] :=
  ⟨by simp, by simp, by simpa [Together] using apart⟩

/-- What is no integer does not count. -/
theorem unsettledAfter_cons {kind : Kind} {found' : Found} (noInt : ∀ i, kind ≠ .number (.int i))
    (noOther : kind ≠ .other) (negative : found'.negative = found.negative)
    (large : found'.large = found.large) :
    UnsettledAfter found (kind :: kinds) ↔ UnsettledAfter found' kinds := by
  have among (j : Int) : Kind.number (.int j) ∈ kind :: kinds ↔ Kind.number (.int j) ∈ kinds := by
    simp [(noInt j).symm]
  have together : Together found (kind :: kinds) ↔ Together found' kinds := by
    simp only [Together, among, negative, large]
  constructor
  · intro h
    exact ⟨fun other => h.noOther (List.mem_cons_of_mem _ other),
      fun j inside => h.fits j ((among j).mpr inside), together.mp h.together⟩
  · intro h
    exact ⟨by simpa [noOther.symm] using h.noOther,
      fun j inside => h.fits j ((among j).mp inside), together.mpr h.together⟩

theorem unsettledAfter_cons_int : UnsettledAfter found (.number (.int i) :: kinds) ↔
    ((∃ x, (Number.int i).toDouble = .ok x) ∧ -0x8000000000000000 ≤ i ∧ i < 0x10000000000000000) ∧
      UnsettledAfter (found.withInt i) kinds := by
  constructor
  · intro h
    exact ⟨h.fits i List.mem_cons_self, fun other => h.noOther (List.mem_cons_of_mem _ other),
      fun j inside => h.fits j (List.mem_cons_of_mem _ inside), together_cons_int.mp h.together⟩
  · rintro ⟨here, h⟩
    refine ⟨by simpa using h.noOther, fun j inside => ?_, together_cons_int.mpr h.together⟩
    rcases List.mem_cons.mp inside with same | inside
    · cases same
      exact here
    · exact h.fits j inside

/-- An entry that settles nothing is passed over. -/
theorem breaksAfter_cons {kind : Kind} {found' : Found}
    (step : ∀ kinds, UnsettledAfter found (kind :: kinds) ↔ UnsettledAfter found' kinds)
    (noBreak : ∀ i, kind = .number (.int i) → ∃ x, (Number.int i).toDouble = .ok x) :
    BreaksAfter found (kind :: rest) ↔ BreaksAfter found' rest := by
  constructor
  · rintro ⟨before, i, after, split, unsettled, cause, large⟩
    cases before with
    | nil =>
      obtain ⟨same, rfl⟩ := List.cons.inj split
      obtain ⟨x, has⟩ := noBreak i same
      cases has.symm.trans large
    | cons first before =>
      obtain ⟨rfl, rfl⟩ := List.cons.inj split
      exact ⟨before, i, after, rfl, (step before).mp unsettled, cause, large⟩
  · rintro ⟨before, i, after, rfl, unsettled, large⟩
    exact ⟨kind :: before, i, after, rfl, (step before).mpr unsettled, large⟩

/-- When a column cannot be looked through. -/
theorem wantsDoubles_eq_error_iff (apart : (found.negative && found.large) = false) :
    (∃ cause, wantsDoubles found kinds = .error cause) ↔ BreaksAfter found kinds := by
  induction kinds generalizing found with
  | nil =>
    constructor
    · rintro ⟨cause, h⟩
      cases h
    · rintro ⟨before, i, rest, split, _⟩
      simp at split
  | cons kind rest ih =>
    -- Missing entries, truth values and doubles leave what was found of the integers.
    have passed {kind : Kind} {found' : Found} (noInt : ∀ i, kind ≠ .number (.int i))
        (noOther : kind ≠ .other) (negative : found'.negative = found.negative)
        (large : found'.large = found.large) :
        (∃ cause, wantsDoubles found' rest = .error cause) ↔ BreaksAfter found (kind :: rest) := by
      refine (ih (by rw [negative, large, apart])).trans (breaksAfter_cons (fun _ => ?_) ?_).symm
      · exact unsettledAfter_cons noInt noOther negative large
      · exact fun i same => absurd same (noInt i)
    cases kind with
    | missing => exact passed (by simp) (by simp) rfl rfl
    | truth => exact passed (by simp) (by simp) rfl rfl
    | other =>
      constructor
      · rintro ⟨cause, h⟩
        cases h
      · rintro ⟨before, i, after, split, unsettled, _⟩
        cases before with
        | nil => cases (List.cons.inj split).1
        | cons first before =>
          obtain ⟨rfl, _⟩ := List.cons.inj split
          exact absurd List.mem_cons_self unsettled.noOther
    | number n =>
      cases n with
      | double x => exact passed (by simp) (by simp) rfl rfl
      | int i =>
        cases has : (Number.int i).toDouble with
        | error cause =>
          rw [wantsDoubles_cons_tooLarge has]
          exact ⟨fun _ => ⟨[], i, rest, rfl, unsettledAfter_nil apart, cause, has⟩,
            fun _ => ⟨cause, rfl⟩⟩
        | ok x =>
          rw [wantsDoubles_cons_int has]
          have noBreak (j : Int) (same : Kind.number (.int i) = .number (.int j)) :
              ∃ x, (Number.int j).toDouble = .ok x := by
            cases same
            exact ⟨x, has⟩
          by_cases settled : found.Settles i
          · rw [if_pos settled]
            constructor
            · rintro ⟨cause, h⟩
              cases h
            · rintro ⟨before, j, after, split, unsettled, cause, large⟩
              cases before with
              | nil =>
                obtain ⟨x', has'⟩ := noBreak j (List.cons.inj split).1
                cases has'.symm.trans large
              | cons first before =>
                obtain ⟨rfl, _⟩ := List.cons.inj split
                obtain ⟨⟨_, low, high⟩, later⟩ := unsettledAfter_cons_int.mp unsettled
                exact absurd settled (not_settles low high later.together)
          · rw [if_neg settled]
            obtain ⟨low, high, apart⟩ := fits_of_not_settles settled
            refine (ih apart).trans (breaksAfter_cons (fun _ => ?_) noBreak).symm
            exact unsettledAfter_cons_int.trans ⟨And.right, fun h => ⟨⟨⟨x, has⟩, low, high⟩, h⟩⟩

/-! ### Columns with one kind of number -/

section

variable {α : Type} {kind : α → Kind} {column : List α} (change : (Number → Number) → α → α)

theorem uniform_of_unites (h : Unites (column.map kind)) :
    uniform kind change column = .ok (column.map (change asDouble)) := by
  unfold uniform
  rw [(wantsDoubles_eq_true_iff rfl).mpr (unitesAfter_nothing.mpr h)]
  rfl

theorem uniform_of_not_unites (h : ¬ Unites (column.map kind)) :
    uniform kind change column = .ok column ∨
      ∃ i cause, .number (.int i) ∈ column.map kind ∧ (Number.int i).toDouble = .error cause ∧
        uniform kind change column = .error cause := by
  unfold uniform
  cases wants : wantsDoubles {} (column.map kind) with
  | error cause =>
    obtain ⟨i, inside, large⟩ := exists_of_wantsDoubles_error wants
    exact .inr ⟨i, cause, inside, large, rfl⟩
  | ok wanted =>
    cases wanted with
    | true => exact absurd (unitesAfter_nothing.mp ((wantsDoubles_eq_true_iff rfl).mp wants)) h
    | false => exact .inl rfl

/-- A column gets one kind of number unless it cannot be looked through. -/
theorem uniform_eq_error_iff :
    (∃ cause, uniform kind change column = .error cause) ↔ Breaks (column.map kind) := by
  rw [Breaks, ← wantsDoubles_eq_error_iff rfl]
  unfold uniform
  cases wantsDoubles {} (column.map kind) with
  | error cause => exact ⟨fun _ => ⟨cause, rfl⟩, fun _ => ⟨cause, rfl⟩⟩
  | ok wanted =>
    cases wanted <;> exact iff_of_false nofun nofun

end

end Quarterly.Column
