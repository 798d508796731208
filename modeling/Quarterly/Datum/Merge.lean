import Quarterly.Datum.Basic

/-!
# Merging data trees

A tree is laid over another one. Where both have a mapping the two are merged key by key; anywhere
else the upper tree counts as a whole. Keys keep their places, new ones follow.
-/

namespace Quarterly.Datum

mutual

/-- A tree laid over another one. -/
def overlay (base : Datum) : Datum → Datum
  | .mapping upper =>
    match base with
    | .mapping lower => .mapping (entriesOver lower upper)
    | _ => .mapping upper
  | d => d

/-- The entries of a mapping laid over those of another one. -/
def entriesOver (lower : Keyed Datum) : List (String × Datum) → Keyed Datum
  | [] => lower
  | (key, d) :: rest =>
    let merged := match lower.get? key with
      | some old => overlay old d
      | none => d
    entriesOver (lower.put key merged) rest

end

end Quarterly.Datum
