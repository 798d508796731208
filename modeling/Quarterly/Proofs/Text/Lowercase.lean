import Quarterly.Text.Lowercase

/-!
# Lower case has no capitals

Lower-casing a text a second time changes nothing. This is a fact about the tables: no small letter
that they lead to is a capital of theirs again (`apart_caseRuns`). Capital sigma and the dotted
capital I, which do not go by the tables, lead to letters that are no capitals either, so all
characters of a lower-case form are small (`isSmall_of_mem_lowerFrom`), and a text of small
characters is its own lower-case form (`lowerFrom_of_isSmall`).
-/

namespace Quarterly.Text

namespace CaseRun

/-- The small letter of the first capital. -/
def smallest (run : CaseRun) : Nat := (run.first + run.distance).toNat

/-- No small letter of one run is a capital of another. Either the letters lie on one side of the
capitals, or both go in steps of two and never meet. -/
def apart (run other : CaseRun) : Bool :=
  Nat.blt other.last run.smallest ||
  Nat.blt (run.smallest + (run.last - run.first)) other.first ||
  (other.stride == 2 && (run.stride == 2 || run.first == run.last) &&
    run.smallest % 2 != other.first % 2)

variable {run other : CaseRun} {code : Nat}

theorem covers_iff : run.covers code = true ↔
    run.first ≤ code ∧ code ≤ run.last ∧ (code - run.first) % run.stride = 0 := by
  simp [covers, and_assoc]

theorem not_covers_of_apart (positive : 0 ≤ run.first + run.distance)
    (apart : run.apart other = true) (covered : run.covers code = true) :
    other.covers (code + run.distance).toNat = false := by
  obtain ⟨first, last, step⟩ := covers_iff.mp covered
  have place : (code + run.distance).toNat = run.smallest + (code - run.first) := by
    unfold smallest
    omega
  simp only [CaseRun.apart, Bool.or_eq_true, Bool.and_eq_true, Nat.blt_eq, beq_iff_eq,
    bne_iff_ne] at apart
  rw [Bool.eq_false_iff, place]
  intro met
  obtain ⟨first', last', step'⟩ := covers_iff.mp met
  rcases apart with (below | above) | ⟨⟨two, even | single⟩, parity⟩
  · omega
  · omega
  · rw [two] at step'
    rw [even] at step
    omega
  · rw [two] at step'
    omega

end CaseRun

/-- The dotted capital I as a run of its own, for the tables have none for it. -/
def dottedCapital : CaseRun := ⟨304, 304, 1, 0⟩

theorem apart_caseRuns :
    (caseRuns.all fun run => (dottedCapital :: caseRuns).all run.apart) = true := by
  decide +kernel

set_option maxRecDepth 4000 in
theorem distance_caseRuns : ∀ run ∈ caseRuns, 0 ≤ run.first + run.distance := by
  decide

set_option maxRecDepth 4000 in
/-- Of the first 128 characters the tables have those from A to Z. -/
theorem ascii_caseRuns :
    ∀ run ∈ dottedCapital :: caseRuns, 65 ≤ run.first ∧ run.last ≤ 90 ∨ 128 ≤ run.first := by
  decide

/-- A character that is not a capital. -/
def IsSmall (c : Char) : Prop := ∀ run ∈ dottedCapital :: caseRuns, run.covers c.toNat = false

instance : DecidablePred IsSmall := fun _ => inferInstanceAs (Decidable (∀ _ ∈ _, _))

/-! ### Lower-case forms are small -/

theorem isSmall_of_ascii {c : Char} (ascii : c.toNat < 128)
    (h : ¬ (65 ≤ c.toNat ∧ c.toNat ≤ 90)) : IsSmall c := by
  intro run mem
  rw [Bool.eq_false_iff]
  intro covered
  obtain ⟨first, last, -⟩ := CaseRun.covers_iff.mp covered
  have place := ascii_caseRuns run mem
  omega

theorem isSmall_ofNat {code : Nat}
    (h : ∀ run ∈ dottedCapital :: caseRuns, run.covers code = false) :
    IsSmall (Char.ofNat code) := by
  by_cases valid : code.isValidChar
  · rw [Char.ofNat, dif_pos valid]
    exact h
  · rw [Char.ofNat, dif_neg valid]
    exact isSmall_of_ascii (by decide) (by decide)

theorem forall_ascii {P : Char → Prop} (h : ∀ code < 128, P (Char.ofNat code)) (c : Char)
    (ascii : c.toNat < 128) : P c := by
  have holds := h c.toNat ascii
  rwa [Char.ofNat_toNat] at holds

/-- Below 128, small letters stand outside A to Z, and what stands there stays. -/
theorem toLower_ascii : ∀ c : Char, c.toNat < 128 →
    (c.toLower.toNat < 128 ∧ ¬ (65 ≤ c.toLower.toNat ∧ c.toLower.toNat ≤ 90)) ∧
    (¬ (65 ≤ c.toNat ∧ c.toNat ≤ 90) → c.toLower = c) :=
  forall_ascii (by decide)

theorem isSmall_lowerChar {c : Char} (plain : c ≠ 'İ') : IsSmall (lowerChar c) := by
  unfold lowerChar
  split
  · rename_i ascii
    obtain ⟨⟨ascii', outside⟩, -⟩ := toLower_ascii c ascii
    exact isSmall_of_ascii ascii' outside
  · split
    · rename_i run found
      have member := List.mem_of_find?_eq_some found
      have covered : run.covers c.toNat = true := by simpa using List.find?_some found
      have apart := List.all_eq_true.mp apart_caseRuns run member
      exact isSmall_ofNat fun other mem =>
        CaseRun.not_covers_of_apart (distance_caseRuns run member)
          (List.all_eq_true.mp apart other mem) covered
    · rename_i missing
      refine List.forall_mem_cons.mpr ⟨?_, fun run mem => ?_⟩
      · rw [Bool.eq_false_iff]
        intro covered
        obtain ⟨first, last, -⟩ := CaseRun.covers_iff.mp covered
        exact plain (Char.toNat_inj.mp (Nat.le_antisymm last first))
      · simpa using List.find?_eq_none.mp missing run mem

set_option maxRecDepth 8000 in
/-- The letters that capital sigma and the dotted capital I lead to. -/
theorem isSmall_special : ∀ c ∈ ['ς', 'σ', 'i', '\u0307'], IsSmall c := by
  have all : (['ς', 'σ', 'i', '\u0307'].all fun c => IsSmall c) = true := by decide
  exact fun c mem => of_decide_eq_true (List.all_eq_true.mp all c mem)

theorem isSmall_of_mem_lowerFrom {passed cs : List Char} {c : Char}
    (h : c ∈ lowerFrom passed cs) : IsSmall c := by
  induction cs generalizing passed with
  | nil => cases h
  | cons d rest ih =>
    rcases List.mem_append.mp h with first | later
    · split at first
      · obtain rfl := List.mem_singleton.mp first
        exact isSmall_special _ (by split <;> decide)
      · split at first
        · exact isSmall_special c (List.mem_of_mem_drop (i := 2) first)
        · rename_i plain
          obtain rfl := List.mem_singleton.mp first
          exact isSmall_lowerChar plain
    · exact ih later

/-! ### Small texts are their lower-case forms -/

theorem lowerChar_of_isSmall {c : Char} (small : IsSmall c) : lowerChar c = c := by
  unfold lowerChar
  split
  · rename_i ascii
    have outside : ¬ (65 ≤ c.toNat ∧ c.toNat ≤ 90) := by
      rintro ⟨first, last⟩
      have missed := small ⟨65, 90, 1, 32⟩ (.tail _ (.head _))
      cases missed.symm.trans (CaseRun.covers_iff.mpr ⟨first, last, Nat.mod_one _⟩)
    exact (toLower_ascii c ascii).2 outside
  · split
    · rename_i run found
      have covered : run.covers c.toNat = true := by simpa using List.find?_some found
      have member := List.mem_of_find?_eq_some found
      cases (small run (.tail _ member)).symm.trans covered
    · rfl

theorem lowerFrom_of_isSmall {passed cs : List Char} (small : ∀ c ∈ cs, IsSmall c) :
    lowerFrom passed cs = cs := by
  induction cs generalizing passed with
  | nil => rfl
  | cons c rest ih =>
    obtain ⟨first, others⟩ := List.forall_mem_cons.mp small
    have capitals : ¬ IsSmall 'Σ' ∧ ¬ IsSmall 'İ' := by decide
    have sigma : c ≠ 'Σ' := fun same => capitals.1 (same ▸ first)
    have dotted : c ≠ 'İ' := fun same => capitals.2 (same ▸ first)
    rw [lowerFrom, if_neg sigma, if_neg dotted, lowerChar_of_isSmall first, ih others]
    rfl

theorem isSmall_of_mem_lower {s : String} {c : Char} (h : c ∈ (lower s).toList) : IsSmall c := by
  rw [lower, String.toList_ofList] at h
  exact isSmall_of_mem_lowerFrom h

theorem lower_of_isSmall {s : String} (small : ∀ c ∈ s.toList, IsSmall c) : lower s = s := by
  rw [lower, lowerFrom_of_isSmall small, String.ofList_toList]

/-- Lower-casing a second time changes nothing. -/
theorem lower_lower (s : String) : lower (lower s) = lower s :=
  lower_of_isSmall fun _ => isSmall_of_mem_lower

end Quarterly.Text
