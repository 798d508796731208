import Quarterly.Keyed

/-!
# Look-ups in keyed lists

What is under a key after a value is put somewhere, and in a list that has one entry for each of
some keys. With one entry under each key the order of the entries does not matter to a look-up, and
the keys in their order with what they lead to are all there is to a list (`ext_get?`).
-/

namespace Quarterly.Keyed

variable {α : Type} {entries others : Keyed α} {keys : List String} {key other : String}
  {value : α}

theorem get?_cons (entry : String × α) :
    get? (entry :: entries) key = if entry.1 = key then some entry.2 else get? entries key := by
  unfold get?
  by_cases h : entry.1 = key <;> simp [h]

theorem get?_put : (entries.put key value).get? other =
    if key = other then some value else entries.get? other := by
  induction entries with
  | nil => exact get?_cons _
  | cons entry rest ih =>
    unfold put
    split
    · rename_i same
      have same : entry.1 = key := by simpa using same
      simp only [get?_cons, same]
      split <;> rfl
    · rename_i different
      have different : entry.1 ≠ key := by simpa using different
      simp only [get?_cons, ih]
      grind

/-- A new value under a key that is there already adds no key. -/
theorem isSome_get?_put (here : (entries.get? key).isSome = true) :
    ((entries.put key value).get? other).isSome = (entries.get? other).isSome := by
  rw [get?_put]
  split
  · rename_i same
    rw [← same, here]
    rfl
  · rfl

theorem mem_of_get? (h : entries.get? key = some value) : ∃ entry ∈ entries, entry.2 = value := by
  obtain ⟨entry, found, rfl⟩ := Option.map_eq_some_iff.mp h
  exact ⟨entry, List.mem_of_find?_eq_some found, rfl⟩

/-- With one entry under each key, a key leads to the value of its entry. -/
theorem get?_eq_some_iff (unique : entries.keys.Nodup) :
    entries.get? key = some value ↔ (key, value) ∈ entries := by
  induction entries with
  | nil => simp [get?]
  | cons entry rest ih =>
    obtain ⟨fresh, unique⟩ := List.nodup_cons.mp unique
    rw [get?_cons, List.mem_cons]
    by_cases same : entry.1 = key
    · subst same
      have outside : (entry.1, value) ∉ rest := fun inside =>
        fresh (List.mem_map.mpr ⟨_, inside, rfl⟩)
      simp [outside, Prod.ext_iff, eq_comm]
    · have different : (key, value) ≠ entry := fun h => same (h ▸ rfl)
      rw [if_neg same, ih unique]
      simp [different]

theorem get?_of_perm (order : entries.Perm others) (unique : others.keys.Nodup) :
    entries.get? key = others.get? key := by
  have unique' : entries.keys.Nodup := (order.map Prod.fst).nodup_iff.mpr unique
  refine Option.ext fun value => ?_
  rw [get?_eq_some_iff unique, get?_eq_some_iff unique']
  exact order.mem_iff

/-! ### Keys -/

theorem keys_cons (entry : String × α) :
    Keyed.keys (entry :: entries) = entry.1 :: entries.keys := rfl

theorem get?_eq_none_iff : entries.get? key = none ↔ key ∉ entries.keys := by
  induction entries with
  | nil => simp [get?, Keyed.keys]
  | cons entry rest ih =>
    rw [get?_cons, keys_cons, List.mem_cons]
    by_cases same : entry.1 = key
    · simp [same]
    · rw [if_neg same, ih]
      simp [Ne.symm same]

/-- A new key comes last. -/
theorem keys_put : (entries.put key value).keys =
    if key ∈ entries.keys then entries.keys else entries.keys ++ [key] := by
  induction entries with
  | nil => rfl
  | cons entry rest ih =>
    unfold put
    by_cases same : entry.1 = key
    · simp [keys_cons, same]
    · have here : (entry.1 == key) = false := by simpa using same
      rw [here]
      change Keyed.keys (entry :: put rest key value) = _
      rw [keys_cons, keys_cons, ih]
      by_cases inside : key ∈ Keyed.keys rest
      · simp [inside]
      · simp [inside, Ne.symm same]

/-- Lists with the same keys, each of them once, are equal if every key leads to the same in
both. -/
theorem ext_get? (unique : entries.keys.Nodup) (sameKeys : entries.keys = others.keys)
    (same : ∀ key, entries.get? key = others.get? key) : entries = others := by
  induction entries generalizing others with
  | nil =>
    cases others with
    | nil => rfl
    | cons entry rest => cases sameKeys
  | cons entry rest ih =>
    cases others with
    | nil => cases sameKeys
    | cons entry' rest' =>
      obtain ⟨fresh, unique⟩ := List.nodup_cons.mp unique
      obtain ⟨sameKey, sameKeys⟩ := List.cons.inj sameKeys
      have sameKey : entry.1 = entry'.1 := sameKey
      have tails : rest = rest' := ih unique sameKeys fun key => by
        by_cases atKey : entry.1 = key
        · subst atKey
          have fresh' : entry.1 ∉ Keyed.keys rest' := fun inside => fresh (sameKeys ▸ inside)
          rw [get?_eq_none_iff.mpr fresh, get?_eq_none_iff.mpr fresh']
        · have here := same key
          rwa [get?_cons, get?_cons, if_neg atKey, if_neg (sameKey ▸ atKey)] at here
      have value := same entry.1
      rw [get?_cons, get?_cons, if_pos rfl, if_pos sameKey.symm] at value
      rw [tails, Prod.ext sameKey (Option.some.inj value)]

/-! ### One entry for each of some keys -/

variable {valueOf : String → α}

theorem get?_map : get? (keys.map fun k => (k, valueOf k)) key =
    if key ∈ keys then some (valueOf key) else none := by
  induction keys with
  | nil => rfl
  | cons k rest ih =>
    rw [List.map_cons, get?_cons, ih]
    by_cases same : k = key
    · simp [same]
    · simp [same, Ne.symm same]

/-- A value put under a key takes its place among the entries if the key is there, and otherwise
comes last. -/
theorem put_map (unique : keys.Nodup) :
    put (keys.map fun k => (k, valueOf k)) key value =
      (if key ∈ keys then keys else keys ++ [key]).map fun k =>
        (k, if k = key then value else valueOf k) := by
  induction keys with
  | nil => simp [put]
  | cons k rest ih =>
    obtain ⟨fresh, unique⟩ := List.nodup_cons.mp unique
    rw [List.map_cons]
    unfold put
    by_cases same : k = key
    · subst same
      have kept : ∀ other ∈ rest, (other, valueOf other) =
          (other, if other = k then value else valueOf other) := fun other inside => by
        have different : other ≠ k := fun h => fresh (h ▸ inside)
        rw [if_neg different]
      simpa using kept
    · have here : (k == key) = false := by simpa using same
      rw [here, ih unique]
      by_cases inside : key ∈ rest
      · simp [inside, same]
      · simp [inside, same, Ne.symm same]

end Quarterly.Keyed
