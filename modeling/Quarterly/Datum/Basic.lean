import Quarterly.Calendar.Moment
import Quarterly.Keyed
import Quarterly.Number.Basic

/-!
# Data trees

The data that configurations, settings and records come from before anything is known about their
shape: scalars, lists, and mappings from text keys in the order of their entries.
-/

namespace Quarterly

inductive Datum where
  | null
  | bool (b : Bool)
  | int (i : Int)
  | double (x : Float)
  | text (s : String)
  | date (d : Date)
  | moment (m : Moment)
  | list (items : List Datum)
  | mapping (entries : List (String × Datum))
  deriving Inhabited

namespace Datum

def isNull : Datum → Bool
  | null => true
  | _ => false

/-- Whether a datum counts as true: null, false, zero and whatever is empty do not. -/
def truth : Datum → Bool
  | null => false
  | bool b => b
  | int i => i != 0
  | double x => x != 0
  | text s => !s.isEmpty
  | date _ | moment _ => true
  | list items => !items.isEmpty
  | mapping entries => !entries.isEmpty

/-- The entries of a mapping. -/
def entries? : Datum → Option (Keyed Datum)
  | mapping entries => some entries
  | _ => none

end Datum

end Quarterly
