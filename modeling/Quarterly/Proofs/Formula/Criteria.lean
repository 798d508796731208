import Quarterly.Formula.Library.Conditional
import Quarterly.Proofs.Formula.Equality

/-!
# Criteria of equality and inequality

A criterion of inequality compares numbers exactly, whereas one of equality overlooks a small drift.
So the two are not the complements of one another: a number that drifts from the one of the
criterion satisfies both, and an infinity satisfies neither when it is compared with itself. All
other values satisfy exactly one (`meets_both`), and the counts over a range add up to its length
once these two kinds are accounted for (`countMatching_both`).
-/

namespace Quarterly.Formula

namespace Value

/-! ### Operands -/

/-- The operand of a criterion: what stands behind the sign, without the blanks at the end. -/
def operandOf (t : String) : String :=
  String.ofList (t.toList.reverse.dropWhile Text.isBlank).reverse

theorem dropWhile_of_visible {cs : List Char} (notEmpty : cs ≠ [])
    (visible : ∀ c ∈ cs, Text.isBlank c = false) (rest : List Char) :
    (cs ++ rest).dropWhile Text.isBlank = cs ++ rest := by
  cases cs with
  | nil => exact absurd rfl notEmpty
  | cons c others => exact List.dropWhile_cons_of_neg (by simp [visible c List.mem_cons_self])

theorem trim_signed {sign : String} (notEmpty : sign.toList ≠ [])
    (visible : ∀ c ∈ sign.toList, Text.isBlank c = false) (t : String) :
    Text.trim (sign ++ t) = sign ++ operandOf t := by
  have back : sign.toList.reverse.dropWhile Text.isBlank = sign.toList.reverse := by
    simpa using dropWhile_of_visible (by simpa using notEmpty)
      (fun c mem => visible c (List.mem_reverse.mp mem)) []
  apply String.toList_inj.mp
  rw [Text.trim, Text.trimChars, operandOf]
  simp only [String.toList_append, String.toList_ofList]
  rw [dropWhile_of_visible notEmpty visible, List.reverse_append, List.dropWhile_append, back]
  split
  · rename_i blank
    simp [List.isEmpty_iff.mp blank]
  · simp

/-- The two numbers that a criterion with a sign compares, if it compares numbers. -/
def compared? (v : Value) (t : String) : Option (Number × Float) :=
  match v, leadingNumber? (operandOf t) with
  | number n, some threshold => some (n, threshold)
  | _, _ => none

/-- What a criterion of equality or of inequality asks of a value. -/
def meets (v : Value) (sign : CriterionSign) (t : String) : Except NumericFault Bool :=
  match v.compared? t with
  | some (n, threshold) => sign.onNumbers n (.double threshold)
  | none => pure (if sign = .equal then v.strictEqual (.text (operandOf t))
      else !v.strictEqual (.text (operandOf t)))

theorem matchesTextCriterion_signed {criterion t : String} {sign : CriterionSign}
    (signed : CriterionSign.split? criterion.toList = some (sign, (operandOf t).toList))
    (equality : sign = .equal ∨ sign = .unequal) (v : Value) :
    v.matchesTextCriterion criterion = v.meets sign t := by
  unfold matchesTextCriterion
  rw [signed]
  dsimp only
  rw [String.ofList_toList]
  cases v with
  | number n =>
    unfold meets compared?
    cases leadingNumber? (operandOf t) with
    | some threshold => rfl
    | none => rcases equality with rfl | rfl <;> rfl
  | null | bool b | text s | array i items | lambda i f =>
    rcases equality with rfl | rfl <;> rfl

theorem matchesCriterion_text (v : Value) (s : String) :
    v.matchesCriterion (.text s) = v.matchesTextCriterion (Text.trim s) := rfl

theorem matchesCriterion_equal (v : Value) (t : String) :
    v.matchesCriterion (.text ("=" ++ t)) = v.meets .equal t := by
  rw [matchesCriterion_text, trim_signed (by simp) (by simp; decide)]
  exact matchesTextCriterion_signed (by simp [CriterionSign.split?]) (.inl rfl) v

theorem matchesCriterion_unequal (v : Value) (t : String) :
    v.matchesCriterion (.text ("<>" ++ t)) = v.meets .unequal t ∧
      v.matchesCriterion (.text ("!=" ++ t)) = v.meets .unequal t := by
  constructor <;> rw [matchesCriterion_text, trim_signed (by simp) (by simp; decide)] <;>
    exact matchesTextCriterion_signed (by simp [CriterionSign.split?]) (.inr rfl) v

/-- A criterion of inequality never faults. -/
theorem exists_meets_unequal (v : Value) (t : String) : ∃ b, v.meets .unequal t = .ok b := by
  unfold meets
  split <;> exact ⟨_, rfl⟩

/-! ### Both signs -/

/-- A number that is not the one of the criterion, but differs so little from it that equality
overlooks the drift. -/
def driftsFrom (v : Value) (t : String) : Bool :=
  match v.compared? t with
  | some (n, threshold) => !n.equal (.double threshold) &&
      (n.sub (.double threshold)).toOption.any fun d => d.abs.less (.double tolerance)
  | none => false

/-- An infinity that the criterion names. -/
def isInfinityOf (v : Value) (t : String) : Bool :=
  match v.compared? t with
  | some (n, threshold) => decide (n.SameInfinity (.double threshold))
  | none => false

theorem sameInfinity_eq {a b d : Number} (h : a.sub b = .ok d) :
    (!d.abs.less (.double tolerance) && a.equal b) = decide (a.SameInfinity b) := by
  by_cases infinite : a.SameInfinity b
  · have equal : a.equal b = true := by
      cases a with
      | int i => exact infinite.elim
      | double x => cases b with
        | int j => exact infinite.elim
        | double y =>
          exact beq_iff_eq.mpr ((Number.order_doubles x y).trans
            (Number.beq_iff_compare.mp infinite.2))
    have notNumber : d.abs.IsNaN :=
      Number.isNaN_abs.mpr ((Number.isNaN_sub_iff h).mpr (.inr (.inr infinite)))
    simp [infinite, equal, (Number.not_ordered_of_isNaN (.inl notNumber)).1]
  · have overlooked : a.equal b = true → d.abs.less (.double tolerance) = true := fun equal =>
      less_tolerance_of_isZero (Number.abs_of_equal equal infinite h)
    cases equal : a.equal b with
    | false => simp [infinite]
    | true => simp [infinite, overlooked equal]

/-- Both criteria hold of what drifts, and neither of an infinity. -/
theorem meets_both {v : Value} {t : String} {a b : Bool} (equal : v.meets .equal t = .ok a)
    (unequal : v.meets .unequal t = .ok b) :
    (a && b) = v.driftsFrom t ∧ (!a && !b) = v.isInfinityOf t := by
  unfold meets at equal unequal
  unfold driftsFrom isInfinityOf
  cases compared : v.compared? t with
  | none =>
    rw [compared] at equal unequal
    cases equal
    cases unequal
    exact ⟨Bool.and_not_self _, by simp⟩
  | some pair =>
    obtain ⟨n, threshold⟩ := pair
    rw [compared] at equal unequal
    obtain ⟨d, hd, ⟨⟩⟩ := Except.bind_eq_ok.mp equal
    cases unequal
    dsimp only
    rw [hd, Bool.not_not]
    exact ⟨Bool.and_comm _ _, sameInfinity_eq hd⟩

end Value

/-! ### Counting -/

section

variable {t : String}

theorem matchesCriterion_apart {v criterion : Value} (small : ¬ v.ClashesWith criterion) :
    ∃ a, v.matchesCriterion criterion = .ok a :=
  (v.faults_matchesCriterion criterion).exists_ok small

theorem matchesCriterion_both {v : Value} (small : ¬ v.ClashesWith (.text ("=" ++ t))) :
    ∃ a b, v.matchesCriterion (.text ("=" ++ t)) = .ok a ∧
      v.matchesCriterion (.text ("<>" ++ t)) = .ok b ∧
      v.matchesCriterion (.text ("!=" ++ t)) = .ok b ∧
      (a && b) = v.driftsFrom t ∧ (!a && !b) = v.isInfinityOf t := by
  obtain ⟨a, equal⟩ := matchesCriterion_apart small
  obtain ⟨b, unequal⟩ := v.exists_meets_unequal t
  have ⟨first, second⟩ := v.matchesCriterion_unequal t
  exact ⟨a, b, equal, first.trans unequal, second.trans unequal,
    Value.meets_both ((v.matchesCriterion_equal t).symm.trans equal) unequal⟩

theorem countIf_of_countMatching {range criterion : Value} {n : Nat}
    (h : Library.countMatching criterion range.toItems = .ok n) :
    Library.countIf [range, criterion] = .ok (.int n) := by
  change (do return Answer.int (← liftM (Library.countMatching criterion range.toItems)) :
    Except Fault Answer) = _
  rw [h]
  rfl

theorem countMatching_both {items : List Value}
    (small : ∀ v ∈ items, ¬ v.ClashesWith (.text ("=" ++ t))) :
    ∃ m n, Library.countMatching (.text ("=" ++ t)) items = .ok m ∧
      Library.countMatching (.text ("<>" ++ t)) items = .ok n ∧
      Library.countMatching (.text ("!=" ++ t)) items = .ok n ∧
      m + n + items.countP (·.isInfinityOf t) = items.length + items.countP (·.driftsFrom t) := by
  induction items with
  | nil => exact ⟨0, 0, rfl, rfl, rfl, rfl⟩
  | cons v rest ih =>
    obtain ⟨m, n, ihEqual, ihUnequal, ihOther, counts⟩ :=
      ih fun w mem => small w (List.mem_cons_of_mem v mem)
    obtain ⟨a, b, equal, unequal, other, drifts, infinite⟩ :=
      matchesCriterion_both (small v List.mem_cons_self)
    refine ⟨if a then m + 1 else m, if b then n + 1 else n, ?_, ?_, ?_, ?_⟩
    · rw [Library.countMatching, equal, ihEqual]
      rfl
    · rw [Library.countMatching, unequal, ihUnequal]
      rfl
    · rw [Library.countMatching, other, ihOther]
      rfl
    · rw [List.countP_cons, List.countP_cons, ← drifts, ← infinite, List.length_cons]
      cases a <;> cases b <;> simp <;> omega

end

/-- Of the criteria of equality and of inequality with one operand, both hold of a number that
drifts from the operand, neither holds of an infinity that the operand names, and exactly one holds
of any other value. The counts of a range add up accordingly. Only the criterion of equality can
fault, with an integer out of range, and both ways to write inequality mean the same. -/
theorem equality_criteria (v range : Value) (t : String) :
    v.matchesCriterion (.text ("!=" ++ t)) = v.matchesCriterion (.text ("<>" ++ t)) ∧
    (∃ b, v.matchesCriterion (.text ("<>" ++ t)) = .ok b) ∧
    FaultsWhen NumericFault.IsOverflow (v.ClashesWith (.text ("=" ++ t)))
      (v.matchesCriterion (.text ("=" ++ t))) ∧
    (¬ v.ClashesWith (.text ("=" ++ t)) →
      ∃ a b, v.matchesCriterion (.text ("=" ++ t)) = .ok a ∧
        v.matchesCriterion (.text ("<>" ++ t)) = .ok b ∧
        (a && b) = v.driftsFrom t ∧ (!a && !b) = v.isInfinityOf t) ∧
    ((∀ w ∈ range.toItems, ¬ w.ClashesWith (.text ("=" ++ t))) →
      ∃ m n : Nat, Library.countIf [range, .text ("=" ++ t)] = .ok (.int m) ∧
        Library.countIf [range, .text ("<>" ++ t)] = .ok (.int n) ∧
        Library.countIf [range, .text ("!=" ++ t)] = .ok (.int n) ∧
        m + n + range.toItems.countP (·.isInfinityOf t) =
          range.toItems.length + range.toItems.countP (·.driftsFrom t)) := by
  have ⟨first, second⟩ := v.matchesCriterion_unequal t
  refine ⟨second.trans first.symm, ?_, ?_, fun small => ?_, fun small => ?_⟩
  · rw [first]
    exact v.exists_meets_unequal t
  · generalize Value.text ("=" ++ t) = criterion
    exact v.faults_matchesCriterion criterion
  · obtain ⟨a, b, equal, unequal, -, both⟩ := matchesCriterion_both small
    exact ⟨a, b, equal, unequal, both⟩
  · obtain ⟨m, n, equal, unequal, other, counts⟩ := countMatching_both small
    exact ⟨m, n, countIf_of_countMatching equal, countIf_of_countMatching unequal,
      countIf_of_countMatching other, counts⟩

/-- Of three values one is the three of the criteria, and the others are not. -/
theorem equality_criteria_three :
    let range : Value := .array 0 [.number (.double 3), .text "3", .null]
    (∀ w ∈ range.toItems, ¬ w.ClashesWith (.text ("=" ++ " 3 "))) ∧
    ∃ m n : Nat, Library.countIf [range, .text ("=" ++ " 3 ")] = .ok (.int m) ∧
      Library.countIf [range, .text ("<>" ++ " 3 ")] = .ok (.int n) ∧ m + n = 3 := by
  intro range
  have small : ∀ w ∈ range.toItems, ¬ w.ClashesWith (.text ("=" ++ " 3 ")) := by
    simp [range, Value.toItems, Value.ClashesWith, Value.Oversized, Number.Oversized]
  obtain ⟨-, -, -, -, counting⟩ := equality_criteria .null range " 3 "
  obtain ⟨m, n, equal, unequal, -, counts⟩ := counting small
  refine ⟨small, m, n, equal, unequal, ?_⟩
  have still : range.toItems.countP (·.driftsFrom " 3 ") = 0 := by decide
  have finite : range.toItems.countP (·.isInfinityOf " 3 ") = 0 := by decide
  rw [still, finite] at counts
  exact counts

/-- What a tenth and two tenths add up to drifts from three tenths, so it counts twice. -/
theorem threeTenths_both :
    let v : Value := .number (.double (0.1 + 0.2))
    v.matchesCriterion (.text ("=" ++ "0.3")) = .ok true ∧
    v.matchesCriterion (.text ("<>" ++ "0.3")) = .ok true ∧
    Library.countIf [.array 0 [v], .text ("=" ++ "0.3")] = .ok (.int 1) ∧
    Library.countIf [.array 0 [v], .text ("<>" ++ "0.3")] = .ok (.int 1) := by
  refine ⟨by decide +kernel, by decide +kernel, countIf_of_countMatching ?_,
    countIf_of_countMatching ?_⟩ <;> decide +kernel

end Quarterly.Formula
