import Quarterly.Formula.Library.Array

/-!
# Looking values up

A look-up goes through its keys up to the first one that is not passed: one that matches, and then
the entry at its place is the answer, or one that cannot be compared, and then the look-up faults.
A look-up from the end is one from the start in the reversed arrays (`lookup_reversed`).
-/

namespace Quarterly.Formula.Library

variable {wanted default key : Value} {entry : Option Value} {fault : NumericFault}
  {front rest : List (Value × Option Value)} {keys entries : List Value}

/-! ### Searching -/

/-- An entry, or the default in the place of none and of null. -/
def entryOr (default : Value) : Option Value → Value
  | none | some .null => default
  | some v => v

theorem findEntry_cons (wanted default key : Value) (entry : Option Value)
    (rest : List (Value × Option Value)) :
    findEntry wanted default ((key, entry) :: rest) = (matchesKey wanted key).bind fun found =>
      if found then .ok (entryOr default entry) else findEntry wanted default rest := by
  rw [findEntry.eq_def]
  cases entry with
  | none => rfl
  | some v => cases v <;> rfl

/-- Keys that do not match are passed. -/
theorem findEntry_append (passed : ∀ pair ∈ front, matchesKey wanted pair.1 = .ok false) :
    findEntry wanted default (front ++ rest) = findEntry wanted default rest := by
  induction front with
  | nil => rfl
  | cons pair more ih =>
    obtain ⟨here, passed⟩ := List.forall_mem_cons.mp passed
    rw [List.cons_append, findEntry_cons, here]
    exact ih passed

/-! ### Keys with their entries -/

/-- Keys with the entries at their places. -/
def paired (keys entries : List Value) : List (Value × Option Value) :=
  keys.mapIdx fun i key => (key, entries[i]?)

theorem paired_reverse (sameLength : keys.length = entries.length) :
    paired keys.reverse entries.reverse = (paired keys entries).reverse := by
  unfold paired
  refine List.ext_getElem (by simp) fun i low high => ?_
  have inside : i < keys.length := by simpa using low
  simp only [List.getElem_mapIdx, List.getElem_reverse, List.length_mapIdx,
    List.getElem?_reverse (sameLength ▸ inside), sameLength]

theorem paired_split (entries : List Value) {k : Nat} (inside : k < keys.length) : ∃ front rest,
    paired keys entries = front ++ (keys[k], entries[k]?) :: rest ∧
      front.map (·.1) = keys.take k := by
  refine ⟨(paired keys entries).take k, (paired keys entries).drop (k + 1), ?_, ?_⟩
  · have there : k < (paired keys entries).length := by simpa [paired] using inside
    have here : (paired keys entries)[k] = (keys[k], entries[k]?) := by simp [paired]
    rw [← here, ← List.drop_eq_getElem_cons there, List.take_append_drop]
  · rw [List.map_take]
    congr 1
    refine List.ext_getElem (by simp [paired]) fun i _ _ => by simp [paired]

/-- The search stops at a key that is the first one that does not fail to match. -/
theorem findEntry_paired {k : Nat} (inside : k < keys.length)
    (passed : ∀ key ∈ keys.take k, matchesKey wanted key = .ok false)
    (notPassed : matchesKey wanted keys[k] ≠ .ok false) :
    findEntry wanted default (paired keys entries) =
      (matchesKey wanted keys[k]).map fun _ => entryOr default entries[k]? := by
  obtain ⟨front, rest, split, keysOf⟩ := paired_split entries inside
  rw [split, findEntry_append fun pair mem => passed _ (keysOf ▸ List.mem_map_of_mem mem),
    findEntry_cons]
  cases h : matchesKey wanted keys[k] with
  | error fault => rfl
  | ok found =>
    cases found with
    | true => rfl
    | false => exact absurd h notPassed

theorem findEntry_of_noMatch (passed : ∀ key ∈ keys, matchesKey wanted key = .ok false) :
    findEntry wanted default (paired keys entries) = .ok default := by
  have keysOf : (paired keys entries).map (·.1) = keys :=
    List.ext_getElem (by simp [paired]) fun i _ _ => by simp [paired]
  rw [← List.append_nil (paired keys entries),
    findEntry_append fun pair mem => passed _ (keysOf ▸ List.mem_map_of_mem mem)]
  rfl

/-! ### Look-ups -/

theorem lookup_arrays (v d m : Value) (keys entries : List Value) (i j : Nat) (direction : Number) :
    lookup [v, .array i keys, .array j entries, d, m, .number direction] =
      ((findEntry v d (if direction.equal (.int (-1)) then (paired keys entries).reverse
        else paired keys entries)).mapError .numeric).map .value := by
  have answered (found : Except NumericFault Value) :
      (do return Answer.value (← found) : Except Fault Answer) =
        (found.mapError .numeric).map .value := by
    cases found <;> rfl
  exact answered _

/-- A look-up from the end is a look-up in the reversed arrays. One from the start stops at the
first key that matches or cannot be compared. -/
theorem lookup_reversed (v d m : Value) {keys entries : List Value}
    (sameLength : keys.length = entries.length) (i j i' j' : Nat) {back forth : Number}
    (fromEnd : back.equal (.int (-1)) = true) (fromStart : forth.equal (.int (-1)) = false) :
    lookup [v, .array i keys, .array j entries, d, m, .number back] =
      lookup [v, .array i' keys.reverse, .array j' entries.reverse, d, m, .number forth] ∧
    (∀ (k : Nat) (inside : k < keys.length),
      (∀ key ∈ keys.take k, matchesKey v key = .ok false) →
      (matchesKey v keys[k] = .ok true →
        lookup [v, .array i keys, .array j entries, d, m, .number forth] =
          .ok (.value (entryOr d entries[k]?))) ∧
      ∀ fault, matchesKey v keys[k] = .error fault →
        lookup [v, .array i keys, .array j entries, d, m, .number forth] =
          .error (.numeric fault)) ∧
    ((∀ key ∈ keys, matchesKey v key = .ok false) →
      lookup [v, .array i keys, .array j entries, d, m, .number forth] = .ok (.value d)) := by
  simp only [lookup_arrays, fromEnd, fromStart, if_true, if_false, Bool.false_eq_true]
  refine ⟨by rw [paired_reverse sameLength], fun k inside passed => ⟨fun here => ?_,
    fun fault here => ?_⟩, fun passed => ?_⟩
  · rw [findEntry_paired inside passed (by simp [here]), here]
    rfl
  · rw [findEntry_paired inside passed (by simp [here]), here]
    rfl
  · rw [findEntry_of_noMatch passed]
    rfl

/-- With one key at two places the first look-up ends at an entry that is null, and the one from the
end at the other one. -/
theorem lookup_reversed_repeated :
    let keys : List Value := [.null, .text "b", .text "b"]
    let entries : List Value := [.bool true, .null, .bool false]
    lookup [.text "b", .array 0 keys, .array 1 entries, .text "none", .null, .number (.int (-1))] =
        .ok (.value (.bool false)) ∧
      lookup [.text "b", .array 0 keys, .array 1 entries, .text "none", .null, .number (.int 1)] =
        .ok (.value (.text "none")) := by
  intro keys entries
  have reversed := @lookup_reversed (.text "b") (.text "none") .null keys entries rfl 0 1 2 3
    (.int (-1)) (.int 1) (by decide) (by decide)
  have fromStart := @lookup_reversed (.text "b") (.text "none") .null keys.reverse entries.reverse
    rfl 2 3 0 1 (.int (-1)) (.int 1) (by decide) (by decide)
  exact ⟨reversed.1.trans ((fromStart.2.1 0 (by decide) nofun).1 rfl),
    (reversed.2.1 1 (by decide) (by simp [keys]; rfl)).1 rfl⟩

end Quarterly.Formula.Library
