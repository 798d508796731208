import Quarterly.Datum.Merge
import Quarterly.Proofs.Keyed

/-!
# What merged trees hold

A tree laid over another one is described by what stands at the end of every path of keys: where
both trees have a mapping it is merged, elsewhere the upper tree wins with all that is below
(`at?_overlay`, `at?_overlay_whole`). To lay the result over the lower tree once more changes
nothing (`overlay_overlay`).

A list of entries can repeat a key, a mapping cannot: the statements are about trees whose mappings
have one entry for each of their keys.
-/

namespace Quarterly

namespace Datum

/-- The mappings of a tree have one entry for each of their keys. Lists are taken whole when trees
are merged, and so are the mappings in them. -/
inductive OneEntryEach : Datum → Prop where
  | mapping {entries : Keyed Datum} (unique : entries.keys.Nodup)
      (values : ∀ entry ∈ entries, OneEntryEach entry.2) : OneEntryEach (.mapping entries)
  | other {d : Datum} (noMapping : d.entries? = none) : OneEntryEach d

/-- What stands at the end of a path of keys. -/
def at? : Datum → List String → Option Datum
  | d, [] => some d
  | .mapping entries, key :: rest => (Keyed.get? entries key).bind fun d => at? d rest
  | _, _ :: _ => none

/-- A path leads to a mapping. -/
def HasMapping (d : Datum) (path : List String) : Prop :=
  ∃ entries, d.at? path = some (.mapping entries)

/-- What stands at a place after one tree is laid over another one, by what stands there in the
lower tree and in the upper one. -/
def laidOver? : Option Datum → Option Datum → Option Datum
  | some (.mapping lower), some (.mapping upper) => some (.mapping (entriesOver lower upper))
  | _, some upper => some upper
  | lower, none => lower

variable {base upper d : Datum} {lower entries : Keyed Datum} {key : String}

/-! ### Paths -/

theorem at?_append (d : Datum) (path rest : List String) :
    d.at? (path ++ rest) = (d.at? path).bind fun d => d.at? rest := by
  induction path generalizing d with
  | nil => rfl
  | cons key more ih =>
    cases d with
    | mapping entries =>
      change (Keyed.get? entries key).bind _ = ((Keyed.get? entries key).bind _).bind _
      cases Keyed.get? entries key with
      | none => rfl
      | some old => exact ih old
    | _ => rfl

/-- Below anything but a mapping there is nothing. -/
theorem at?_of_noMapping {path : List String} (noMapping : ¬ d.HasMapping path) (rest : List String) :
    d.at? (path ++ key :: rest) = none := by
  rw [at?_append]
  cases h : d.at? path with
  | none => rfl
  | some found =>
    cases found with
    | mapping entries => exact absurd ⟨entries, h⟩ noMapping
    | _ => rfl

/-! ### Entries -/

theorem OneEntryEach.unique (h : (Datum.mapping entries).OneEntryEach) : entries.keys.Nodup := by
  cases h with
  | mapping unique _ => exact unique
  | other noMapping => cases noMapping

theorem OneEntryEach.of_get? (h : (Datum.mapping entries).OneEntryEach)
    (found : entries.get? key = some d) : d.OneEntryEach := by
  cases h with
  | mapping _ values =>
    obtain ⟨entry, mem, rfl⟩ := Keyed.mem_of_get? found
    exact values entry mem
  | other noMapping => cases noMapping

/-- A mapping without mappings in it has one entry for each of its keys if they differ. -/
theorem OneEntryEach.of_flat (unique : entries.keys.Nodup)
    (flat : ∀ entry ∈ entries, entry.2.entries? = none) : (Datum.mapping entries).OneEntryEach :=
  .mapping unique fun entry mem => .other (flat entry mem)

/-- A value laid over the one that stands under its key, if there is one. -/
def laidOn (old? : Option Datum) (d : Datum) : Datum := old?.elim d fun old => overlay old d

theorem entriesOver_cons (lower : Keyed Datum) (key : String) (d : Datum)
    (rest : List (String × Datum)) : entriesOver lower ((key, d) :: rest) =
      entriesOver (lower.put key (laidOn (lower.get? key) d)) rest := by
  rw [entriesOver]
  cases lower.get? key <;> rfl

theorem get?_entriesOver (unique : entries.keys.Nodup) :
    (entriesOver lower entries).get? key =
      (entries.get? key).elim (lower.get? key) fun d => some (laidOn (lower.get? key) d) := by
  induction entries generalizing lower with
  | nil => rfl
  | cons entry rest ih =>
    obtain ⟨fresh, unique⟩ := List.nodup_cons.mp unique
    rw [entriesOver_cons, ih unique, Keyed.get?_cons, Keyed.get?_put]
    by_cases same : entry.1 = key
    · subst same
      have absent : Keyed.get? rest entry.1 = none := Keyed.get?_eq_none_iff.mpr fresh
      simp [absent]
    · rw [if_neg same, if_neg same]

/-- The keys of the lower mapping keep their places, the new ones follow. -/
theorem keys_entriesOver (unique : entries.keys.Nodup) :
    (entriesOver lower entries).keys =
      lower.keys ++ entries.keys.filter fun key => key ∉ lower.keys := by
  induction entries generalizing lower with
  | nil => simp [entriesOver, Keyed.keys]
  | cons entry rest ih =>
    obtain ⟨fresh, unique⟩ := List.nodup_cons.mp unique
    rw [entriesOver_cons, ih unique, Keyed.keys_put, Keyed.keys_cons, List.filter_cons]
    by_cases inside : entry.1 ∈ lower.keys
    · simp [inside]
    · have others : (Keyed.keys rest).filter (fun key => key ∉ lower.keys ++ [entry.1]) =
          (Keyed.keys rest).filter fun key => key ∉ lower.keys :=
        List.filter_congr fun key mem => by
          have different : key ≠ entry.1 := by
            rintro rfl
            exact fresh mem
          simp [different]
      rw [if_neg inside, if_pos (by simpa using inside), others, List.append_assoc]
      rfl

/-! ### Merging -/

/-- Only mappings are merged. -/
theorem overlay_eq_upper (apart : base.entries? = none ∨ upper.entries? = none) :
    overlay base upper = upper := by
  cases upper with
  | mapping entries =>
    cases base with
    | mapping lower => rcases apart with h | h <;> cases h
    | _ => rfl
  | _ => rfl

theorem overlay_mapping (lower entries : Keyed Datum) :
    overlay (.mapping lower) (.mapping entries) = .mapping (entriesOver lower entries) := rfl

theorem laidOver?_some (base upper : Datum) :
    laidOver? (some base) (some upper) = some (overlay base upper) := by
  cases base with
  | mapping lower => cases upper <;> rfl
  | _ => cases upper <;> rfl

theorem laidOver?_of_none (base? upper? : Option Datum) :
    laidOver? none upper? = upper? ∧ laidOver? base? none = base? := by
  constructor
  · cases upper? <;> rfl
  · cases base? with
    | none => rfl
    | some base => cases base <;> rfl

/-- A tree that is laid over itself stays what it is. -/
theorem overlay_self (h : d.OneEntryEach) : overlay d d = d := by
  induction h with
  | other noMapping => exact overlay_eq_upper (.inl noMapping)
  | @mapping entries unique values ih =>
    have keys : (entriesOver entries entries).keys = entries.keys := by
      rw [keys_entriesOver unique, List.filter_eq_nil_iff.mpr (by simp), List.append_nil]
    have same : entriesOver entries entries = entries := by
      refine Keyed.ext_get? (keys ▸ unique) keys fun key => ?_
      rw [get?_entriesOver unique]
      cases found : entries.get? key with
      | none => rfl
      | some old =>
        obtain ⟨entry, mem, rfl⟩ := Keyed.mem_of_get? found
        exact congrArg some (ih entry mem)
    rw [overlay_mapping, same]

theorem nodup_keys_entriesOver (lowerUnique : lower.keys.Nodup) (unique : entries.keys.Nodup) :
    (entriesOver lower entries).keys.Nodup := by
  rw [keys_entriesOver unique, List.nodup_append]
  refine ⟨lowerUnique, unique.filter _, fun key inside other others same => ?_⟩
  have outside := (List.mem_filter.mp others).2
  rw [← same] at outside
  simp [inside] at outside

/-- Merged mappings have one entry for each of their keys again. -/
theorem OneEntryEach.overlay (hb : base.OneEntryEach) (hu : upper.OneEntryEach) :
    (overlay base upper).OneEntryEach := by
  induction hu generalizing base with
  | other noMapping => exact (overlay_eq_upper (.inr noMapping)).symm ▸ .other noMapping
  | @mapping entries unique values ih =>
    cases base with
    | mapping lower =>
      have mergedUnique := nodup_keys_entriesOver hb.unique unique
      refine .mapping mergedUnique fun ⟨key, d⟩ mem => ?_
      have found := (Keyed.get?_eq_some_iff mergedUnique).mpr mem
      rw [get?_entriesOver unique] at found
      cases foundUpper : entries.get? key with
      | none =>
        rw [foundUpper] at found
        exact hb.of_get? found
      | some d' =>
        obtain ⟨entry, mem, rfl⟩ := Keyed.mem_of_get? foundUpper
        rw [foundUpper] at found
        cases foundLower : Keyed.get? lower key with
        | none =>
          rw [foundLower] at found
          exact Option.some.inj found ▸ values entry mem
        | some old =>
          rw [foundLower] at found
          exact Option.some.inj found ▸ ih entry mem (hb.of_get? foundLower)
    | _ => exact .mapping unique values

/-- Entries that are merged already are merged again, if this changes nothing for any key of
both. -/
theorem entriesOver_entriesOver (hl : (Datum.mapping lower).OneEntryEach)
    (unique : entries.keys.Nodup) (again : ∀ key old d, lower.get? key = some old →
      entries.get? key = some d → overlay old (overlay old d) = overlay old d) :
    entriesOver lower (entriesOver lower entries) = entriesOver lower entries := by
  have mergedUnique := nodup_keys_entriesOver hl.unique unique
  have keys : (entriesOver lower (entriesOver lower entries)).keys =
      (entriesOver lower entries).keys := by
    rw [keys_entriesOver mergedUnique, keys_entriesOver unique, List.filter_append,
      List.filter_eq_nil_iff.mpr (by simp), List.filter_filter]
    simp
  refine Keyed.ext_get? (keys ▸ mergedUnique) keys fun key => ?_
  rw [get?_entriesOver mergedUnique, get?_entriesOver unique]
  cases found : entries.get? key with
  | none =>
    cases found' : lower.get? key with
    | none => rfl
    | some old => exact congrArg some (overlay_self (hl.of_get? found'))
  | some d =>
    cases found' : lower.get? key with
    | none => rfl
    | some old => exact congrArg some (again key old d found' found)

/-- To lay a merged tree over the lower one again changes nothing. -/
theorem overlay_overlay (hb : base.OneEntryEach) (hu : upper.OneEntryEach) :
    overlay base (overlay base upper) = overlay base upper := by
  induction hu generalizing base with
  | other noMapping => simp only [overlay_eq_upper (.inr noMapping)]
  | mapping unique values ih =>
    cases base with
    | mapping lower =>
      rw [overlay_mapping, overlay_mapping, entriesOver_entriesOver hb unique]
      intro key old d found found'
      obtain ⟨entry, mem, rfl⟩ := Keyed.mem_of_get? found'
      exact ih entry mem (hb.of_get? found)
    | _ => rfl

/-! ### Places -/

theorem at?_mapping (entries : Keyed Datum) (key : String) (rest : List String) :
    (Datum.mapping entries).at? (key :: rest) =
      (entries.get? key).bind fun d => d.at? rest := rfl

/-- Below a key of two mappings stand the values under it, merged if there are two. -/
theorem at?_overlay_mapping (unique : entries.keys.Nodup) (rest : List String) :
    (overlay (.mapping lower) (.mapping entries)).at? (key :: rest) =
      match lower.get? key, entries.get? key with
      | some old, some d => (overlay old d).at? rest
      | some old, none => old.at? rest
      | none, some d => d.at? rest
      | none, none => none := by
  rw [overlay_mapping, at?_mapping, get?_entriesOver unique]
  cases entries.get? key <;> cases lower.get? key <;> rfl

/-- What stands at the end of a path, if both trees have mappings everywhere before. -/
theorem at?_overlay (hu : upper.OneEntryEach) {path : List String}
    (mappings : ∀ front key rest, path = front ++ key :: rest →
      base.HasMapping front ∧ upper.HasMapping front) :
    (overlay base upper).at? path = laidOver? (base.at? path) (upper.at? path) := by
  induction path generalizing base upper with
  | nil => exact (laidOver?_some base upper).symm
  | cons key rest ih =>
    obtain ⟨⟨lower, hlower⟩, ⟨entries, hentries⟩⟩ := mappings [] key rest rfl
    obtain rfl : base = .mapping lower := Option.some.inj hlower
    obtain rfl : upper = .mapping entries := Option.some.inj hentries
    rw [at?_overlay_mapping hu.unique, at?_mapping, at?_mapping]
    cases found : Keyed.get? lower key with
    | none =>
      rw [Option.bind_none, (laidOver?_of_none none _).1]
      cases Keyed.get? entries key <;> rfl
    | some old =>
      cases found' : Keyed.get? entries key with
      | none =>
        rw [Option.bind_none, (laidOver?_of_none _ none).2]
        rfl
      | some d =>
        refine ih (hu.of_get? found') fun front next more same => ?_
        have deeper := mappings (key :: front) next more (congrArg (key :: ·) same)
        unfold HasMapping at deeper ⊢
        rwa [at?_mapping, at?_mapping, found, found'] at deeper

/-- The upper tree has something else than a mapping at the end of a path, or the lower tree has no
mapping there. -/
def Apart (base upper : Datum) (path : List String) : Prop :=
  ¬ base.HasMapping path ∨ ∃ d, upper.at? path = some d ∧ d.entries? = none

theorem overlay_of_apart_nil (apart : Apart base upper []) : overlay base upper = upper := by
  refine overlay_eq_upper (apart.imp (fun noMapping => ?_) ?_)
  · cases base with
    | mapping lower => exact absurd ⟨lower, rfl⟩ noMapping
    | _ => rfl
  · rintro ⟨d, found, other⟩
    rwa [Option.some.inj found]

/-- Where two trees are apart, the upper one counts with all that is below; without anything in the
upper one at the place itself, this is so for what is below only. -/
theorem at?_overlay_whole (hu : upper.OneEntryEach) {path rest : List String}
    (apart : Apart base upper path) (present : rest = [] → upper.at? path ≠ none) :
    (overlay base upper).at? (path ++ rest) = upper.at? (path ++ rest) := by
  induction path generalizing base upper with
  | nil => rw [overlay_of_apart_nil apart]
  | cons key more ih =>
    by_cases shallow : base.entries? = none ∨ upper.entries? = none
    · rw [overlay_eq_upper shallow]
    · cases base with
      | mapping lower => cases upper with
        | mapping entries =>
          unfold Apart HasMapping at apart
          rw [at?_mapping, at?_mapping] at apart
          rw [at?_mapping] at present
          rw [List.cons_append, at?_overlay_mapping hu.unique, at?_mapping]
          cases found : Keyed.get? lower key with
          | none => cases Keyed.get? entries key <;> rfl
          | some old =>
            rw [found] at apart
            cases found' : Keyed.get? entries key with
            | some d =>
              rw [found'] at apart present
              exact ih (hu.of_get? found') apart present
            | none =>
              rw [found'] at apart present
              -- Nothing in the upper tree: the lower one has nothing below either.
              cases rest with
              | nil => exact absurd rfl (present rfl)
              | cons next others =>
                have noMapping : ¬ old.HasMapping more := by
                  rcases apart with noMapping | ⟨d, none, -⟩
                  · exact noMapping
                  · cases none
                exact at?_of_noMapping noMapping others
        | _ => exact absurd (.inr rfl) shallow
      | _ => exact absurd (.inl rfl) shallow

end Datum

end Quarterly
