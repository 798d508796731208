import Quarterly.Proofs.Outcome
import Quarterly.Schema.Check

/-!
# What checks accept

A check takes data of several shapes for one value. It is stable if it takes the plain shape of
what it has accepted for the same value again: then nothing is lost or turned down when accepted
values are written as data and read back. Checks that are put together from stable ones are
stable, if null is not the plain shape of anything but nothing.
-/

namespace Quarterly.Schema

open Checked

variable {α β : Type} {a : α} {key : String} {entries others : Keyed Datum}

/-! ### Outcomes -/

namespace Checked

theorem under_eq_ok {c : Checked α} : under key c = .ok a ↔ c = .ok a := by
  cases c <;> simp [under]

theorem both_eq_ok {c : Checked α} {c' : Checked β} {p : α × β} :
    both c c' = .ok p ↔ c = .ok p.1 ∧ c' = .ok p.2 := by
  cases c <;> cases c' <;> simp [both, Prod.ext_iff]

theorem all_eq_ok {checks : List (Checked α)} {as : List α} :
    all checks = .ok as ↔ checks = as.map .ok := by
  induction checks generalizing as with
  | nil => cases as <;> simp [all]
  | cons c rest ih =>
    cases as with
    | nil => cases c <;> cases h : all rest <;> simp [all, both, h, Except.map]
    | cons a as =>
      rw [List.map_cons, List.cons.injEq, ← ih]
      cases c <;> cases h : all rest <;> simp [all, both, h, Except.map]

end Checked

/-! ### Single values -/

namespace Check

/-- What a check has accepted, written back as data, is accepted as the same value. -/
def Stable (check : Check α) (toDatum : α → Datum) : Prop :=
  ∀ ⦃d a⦄, check d = .ok a → check (toDatum a) = .ok a

variable {check : Check α} {toDatum : α → Datum}

theorem stable_string : Stable string .text := fun _ _ _ => rfl

theorem stable_boolean : Stable boolean .bool := fun _ _ _ => rfl

theorem positive_eq_ok {field : String} {d : Datum} {i : Int} :
    positive field d = .ok i ↔ integer d = .ok i ∧ 0 < i := by
  unfold positive
  rw [Except.bind_eq_ok]
  constructor
  · rintro ⟨j, h, accepted⟩
    split at accepted
    · cases accepted
    · rename_i above
      cases accepted
      exact ⟨h, Int.not_le.mp above⟩
  · rintro ⟨h, above⟩
    exact ⟨i, h, if_neg (Int.not_le.mpr above)⟩

theorem stable_positive (field : String) : Stable (positive field) .int := fun _ _ accepted =>
  positive_eq_ok.mpr ⟨rfl, (positive_eq_ok.mp accepted).2⟩

/-! ### Values of values -/

theorem optional_of_ne_null {d : Datum} (given : d.isNull = false) :
    optional check d = (check d).map some := by
  cases d with
  | null => cases given
  | _ => rfl

theorem Stable.optional (stable : check.Stable toDatum) (given : ∀ a, (toDatum a).isNull = false) :
    Stable (Check.optional check) fun a? => a?.elim .null toDatum := by
  intro d a? accepted
  cases a? with
  | none => rfl
  | some a =>
    cases hd : d.isNull with
    | true =>
      cases d with
      | null => cases accepted
      | _ => cases hd
    | false =>
      rw [optional_of_ne_null hd] at accepted
      obtain ⟨a', h, same⟩ := Except.map_eq_ok.mp accepted
      obtain rfl : a' = a := Option.some.inj same
      change Check.optional check (toDatum a') = _
      rw [optional_of_ne_null (given a'), stable h]
      rfl

theorem list_eq_ok {items : List Datum} {as : List α} :
    list check (.list items) = .ok as ↔ items.map check = as.map .ok := by
  unfold list
  rw [all_eq_ok]
  simp only [List.ext_getElem?_iff, List.getElem?_mapIdx, List.getElem?_map]
  refine forall_congr' fun i => ?_
  cases items[i]? with
  | none => rfl
  | some d =>
    cases as[i]? with
    | none => simp
    | some a => simp [under_eq_ok]

theorem Stable.list (stable : check.Stable toDatum) :
    Stable (Check.list check) fun as => .list (as.map toDatum) := by
  intro d as accepted
  cases d with
  | list items =>
    rw [list_eq_ok] at accepted
    rw [list_eq_ok, List.map_map]
    refine List.map_congr_left fun a mem => ?_
    have checked : Except.ok a ∈ items.map check := accepted ▸ List.mem_map_of_mem mem
    obtain ⟨d, -, h⟩ := List.mem_map.mp checked
    exact stable h
  | _ => cases accepted

end Check

/-! ### Fields -/

variable {check : Check α} {toDatum : α → Datum} {default : α}

theorem required_eq_ok : required entries key check = .ok a ↔
    ∃ d, entries.get? key = some d ∧ check d = .ok a := by
  unfold required
  rw [under_eq_ok]
  cases entries.get? key with
  | none => simp [fail, throw, throwThe, MonadExceptOf.throw]
  | some d => simp

theorem withDefault_eq_ok : withDefault entries key default check = .ok a ↔
    (∃ d, entries.get? key = some d ∧ check d = .ok a) ∨
      entries.get? key = none ∧ default = a := by
  unfold withDefault
  cases entries.get? key with
  | none => simp [pure, Except.pure]
  | some d => simp [under_eq_ok]

/-- A field that is accepted is accepted again from entries that hold it as data. -/
theorem Check.Stable.required (stable : check.Stable toDatum)
    (accepted : required entries key check = .ok a)
    (written : others.get? key = some (toDatum a)) : required others key check = .ok a := by
  obtain ⟨d, -, h⟩ := required_eq_ok.mp accepted
  exact required_eq_ok.mpr ⟨_, written, stable h⟩

/-- This holds for a field that may be left out too, if its default is accepted. -/
theorem Check.Stable.withDefault (stable : check.Stable toDatum)
    (standard : check (toDatum default) = .ok default)
    (accepted : withDefault entries key default check = .ok a)
    (written : others.get? key = some (toDatum a)) :
    withDefault others key default check = .ok a := by
  rw [withDefault_eq_ok] at accepted ⊢
  rcases accepted with ⟨d, -, h⟩ | ⟨-, rfl⟩
  · exact .inl ⟨_, written, stable h⟩
  · exact .inl ⟨_, written, standard⟩

end Quarterly.Schema
