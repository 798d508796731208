import Quarterly.Datum.Basic

/-!
# Equality of data trees

Whether two trees are the same is decided by a walk through both of them, so that statements about
given trees can be computed.
-/

namespace Quarterly.Datum

mutual

/-- Whether two trees are the same. -/
def same : Datum → Datum → Bool
  | .null, .null => true
  | .bool b, .bool b' => b == b'
  | .int i, .int i' => i == i'
  | .double x, .double x' => decide (x = x')
  | .text s, .text s' => s == s'
  | .date d, .date d' => decide (d = d')
  | .moment m, .moment m' => decide (m = m')
  | .list items, .list items' => sameItems items items'
  | .mapping entries, .mapping entries' => sameEntries entries entries'
  | _, _ => false

def sameItems : List Datum → List Datum → Bool
  | [], [] => true
  | d :: rest, d' :: rest' => same d d' && sameItems rest rest'
  | _, _ => false

def sameEntries : List (String × Datum) → List (String × Datum) → Bool
  | [], [] => true
  | (key, d) :: rest, (key', d') :: rest' => key == key' && same d d' && sameEntries rest rest'
  | _, _ => false

end

mutual

theorem same_iff : ∀ d d' : Datum, same d d' = true ↔ d = d'
  | .list items, d' => by cases d' <;> simp [same, sameItems_iff items]
  | .mapping entries, d' => by cases d' <;> simp [same, sameEntries_iff entries]
  | .null, d' | .bool _, d' | .int _, d' | .double _, d' | .text _, d' | .date _, d'
  | .moment _, d' => by cases d' <;> simp [same]

theorem sameItems_iff : ∀ items items' : List Datum, sameItems items items' = true ↔ items = items'
  | [], items' => by cases items' <;> simp [sameItems]
  | d :: rest, items' => by cases items' <;> simp [sameItems, same_iff d, sameItems_iff rest]

theorem sameEntries_iff : ∀ entries entries' : List (String × Datum),
    sameEntries entries entries' = true ↔ entries = entries'
  | [], entries' => by cases entries' <;> simp [sameEntries]
  | (key, d) :: rest, entries' => by
    cases entries' <;> simp [sameEntries, same_iff d, sameEntries_iff rest, Prod.ext_iff]

end

instance : DecidableEq Datum := fun d d' => decidable_of_iff _ (same_iff d d')

end Quarterly.Datum
