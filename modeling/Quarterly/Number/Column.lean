import Quarterly.Number.Basic

/-!
# Columns of numbers

The entries of a column share one kind of number if they can: as soon as one is a double or is
missing, the integers become doubles as well. A column with anything but numbers is left as it is,
and so is one with integers that do not fit into sixty-four bits together.
-/

namespace Quarterly.Column

/-- What an entry of a column is. -/
inductive Kind where
  | missing
  | truth
  | number (n : Number)
  | other

/-- What has been found in a column so far. -/
structure Found where
  doubles : Bool := false
  truths : Bool := false
  /-- Whether there is an integer below zero. -/
  negative : Bool := false
  /-- Whether there is an integer that needs all sixty-four bits for its magnitude. -/
  large : Bool := false
  deriving Repr, DecidableEq

/-- Whether the integers of a column become doubles. The column is looked through up to the first
entry that settles the matter; an integer before it that is too large for a double is a fault. -/
def wantsDoubles (found : Found) : List Kind → Except NumericFault Bool
  | [] => pure (found.doubles && !found.truths)
  | .other :: _ => pure false
  | .missing :: rest => wantsDoubles { found with doubles := true } rest
  | .truth :: rest => wantsDoubles { found with truths := true } rest
  | .number (.double _) :: rest => wantsDoubles { found with doubles := true } rest
  | .number (.int i) :: rest => do
    let _ ← (Number.int i).toDouble
    let found :=
      { found with negative := found.negative || i < 0, large := found.large || 1 <<< 63 ≤ i }
    if i < -(1 <<< 63) || 1 <<< 64 ≤ i || (found.negative && found.large) then pure false
    else wantsDoubles found rest

/-- A number as a double. -/
def asDouble : Number → Number
  | .int i => .double (Binary64.ofInt i)
  | n => n

/-- The entries of a column with one kind of number, given what each entry is and how its number is
changed. -/
def uniform {α : Type} (kind : α → Kind) (change : (Number → Number) → α → α) (column : List α) :
    Except NumericFault (List α) := do
  if ← wantsDoubles {} (column.map kind) then return column.map (change asDouble)
  else return column

end Quarterly.Column
