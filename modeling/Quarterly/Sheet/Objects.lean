import Quarterly.Json.Reader
import Quarterly.Number.Column
import Quarterly.Sheet.Basic

/-!
# Sheets from objects

A JSON list of objects is a sheet: each object is a row, and every key is a column. What an object
lacks is missing in its row. The numbers of a column are made uniform.

A number with a fraction or an exponent is added up from its parts in doubles: the whole part, and
the first fifteen digits of the fraction times a power of ten. The result can differ from the
nearest double in its last place.
-/

namespace Quarterly.Sheet

/-- How many digits of a fraction count. -/
def fractionDigits : Nat := 15

/-- A number from its parts. -/
def doubleOfParts (n : Numeral) : Float :=
  let fraction := n.fraction.take fractionDigits
  let whole := Binary64.ofInt (Text.decimalNumber n.whole)
  let size := whole + Binary64.ofInt (Text.decimalNumber fraction) *
    Binary64.ofDecimal false 1 (-fraction.length)
  let signed := if n.negative then size * -1 else size
  if n.exponent = 0 then signed else signed * (10 : Float).pow (Binary64.ofInt n.exponent)

/-- What a cell is as an entry of its column. -/
def cellKind : Datum → Column.Kind
  | .null => .missing
  | .bool _ => .truth
  | .int i => .number (.int i)
  | .double x => .number (.double x)
  | _ => .other

/-- A cell with its number changed. -/
def changeCell (change : Number → Number) : Datum → Datum
  | .int i =>
    match change (.int i) with
    | .int i => .int i
    | .double x => .double x
  | d => d

/-- The keys of some objects, in the order in which they are first seen. -/
def keysOf (objects : List (Keyed Datum)) : List String :=
  let seen : Keyed Unit := objects.flatten.foldl (fun seen e => Keyed.put seen e.1 ()) []
  seen.keys

/-- The cells of a column, its numbers made uniform. A column with a number beyond all doubles stays
as it is. -/
def columnCells (objects : List (Keyed Datum)) (key : String) : List Datum :=
  let cells := objects.map fun o => (o.get? key).getD .null
  match Column.uniform cellKind changeCell cells with
  | .ok cells => cells
  | .error _ => cells

/-- The sheet that some objects make. -/
def ofObjects (objects : List (Keyed Datum)) : Sheet :=
  let columns := keysOf objects
  let cells := columns.map (columnCells objects)
  ⟨columns, (List.range objects.length).map fun i =>
    ⟨toString i, cells.map fun column => column.getD i .null⟩⟩

/-- The sheet that a JSON text writes, if it is a list of objects. -/
def ofJson? (text : String) : Option Sheet := do
  match ← Json.readWith? doubleOfParts text with
  | .list items => return ofObjects (← items.mapM Datum.entries?)
  | _ => none

end Quarterly.Sheet
