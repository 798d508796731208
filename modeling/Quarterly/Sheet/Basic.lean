import Quarterly.Datum.Plain

/-!
# Sheets

Rows of data under named columns. Each row carries the label under which messages refer to it.
-/

namespace Quarterly

/-- A row of a sheet, with one cell for each column. -/
structure SheetRow where
  label : String
  cells : List Datum

structure Sheet where
  columns : List String
  rows : List SheetRow

namespace Sheet

/-- A sheet whose columns have other names. -/
def renamed (names : Keyed String) (s : Sheet) : Sheet :=
  { s with columns := s.columns.map fun c => (names.get? c).getD c }

/-- The cells of a row under the columns that are wanted. Of columns with one name the last one
counts. -/
def entriesOf (s : Sheet) (wanted : List String) (row : SheetRow) : Keyed Datum :=
  ((s.columns.zip row.cells).filter fun e => wanted.contains e.1).foldl
    (fun entries e => entries.put e.1 e.2) []

/-- The columns that a sheet lacks. -/
def missing (s : Sheet) (needed : List String) : List String :=
  needed.filter fun c => !s.columns.contains c

end Sheet

end Quarterly
