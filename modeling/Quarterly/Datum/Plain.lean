import Quarterly.Datum.Basic
import Quarterly.Text.Quoted

/-!
# Data as plain text

How a datum is written where text is wanted. A text is written as it is by itself and between
quotes inside lists and mappings.
-/

namespace Quarterly.Datum

/-- A moment in plain text has a blank between date and time. -/
def plainMoment (m : Moment) : String := m.text.map fun c => if c = 'T' then ' ' else c

mutual

/-- A datum inside a list or a mapping. -/
def inner : Datum → String
  | null => "None"
  | bool b => if b then "True" else "False"
  | int i => toString i
  | double x => DoubleLayout.plain.write x
  | text s => Text.quoted s
  | date d => Moment.dateText d
  | moment m => plainMoment m
  | list items => "[" ++ ", ".intercalate (inners items) ++ "]"
  | mapping entries => "\x7b" ++ ", ".intercalate (innerEntries entries) ++ "\x7d"

def inners : List Datum → List String
  | [] => []
  | d :: rest => d.inner :: inners rest

def innerEntries : List (String × Datum) → List String
  | [] => []
  | (key, d) :: rest => (Text.quoted key ++ ": " ++ d.inner) :: innerEntries rest

end

/-- A datum as plain text. -/
def plain : Datum → String
  | text s => s
  | d => d.inner

end Quarterly.Datum
