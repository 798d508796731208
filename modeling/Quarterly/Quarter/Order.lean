import Quarterly.Quarter.Label

/-!
# The order of quarters

Quarters are listed newest first, each once. When every label has a date, the dates decide and
equal dates are put in order by their labels; otherwise the labels alone decide. Dates with and
without a known distance to universal time cannot be put in order together.
-/

namespace Quarterly.Quarter

/-- Why quarters cannot be put in order: some dates know their distance to universal time and
others do not. -/
inductive OrderFault where
  | mixedZones
  deriving Repr, DecidableEq

namespace OrderFault

/-- The wording of the fault. -/
def message : OrderFault → String
  | mixedZones => "Cannot compare tz-naive and tz-aware timestamps"

end OrderFault

/-- A label with its date. -/
structure Dated where
  label : String
  moment : Moment
  deriving Repr, DecidableEq

namespace Dated

/-- Whether one quarter is listed before another: it is newer, or of the same date and later by
its label. -/
def precedes (a b : Dated) : Bool :=
  b.moment.position < a.moment.position ||
    (a.moment.position == b.moment.position && b.label < a.label)

end Dated

/-- The elements of a list, each at its first place only. -/
def distinct {α : Type} [BEq α] : List α → List α
  | [] => []
  | x :: rest => x :: (distinct rest).filter (· != x)

/-- All labels with their dates, if every one has a date. -/
def datedAll? (parse : String → Option Moment) : List String → Option (List Dated)
  | [] => some []
  | label :: rest => do
    let moment ← parse label
    let others ← datedAll? parse rest
    return ⟨label, moment⟩ :: others

/-- The labels newest first, by a given reading of labels as dates. -/
def sortBy (parse : String → Option Moment) (labels : List String) :
    Except OrderFault (List String) :=
  let unique := distinct labels
  match datedAll? parse unique with
  | some dated =>
    if dated.any (·.moment.isAware) && dated.any (!·.moment.isAware) then throw .mixedZones
    else pure ((dated.mergeSort fun a b => !b.precedes a).map (·.label))
  | none => pure (unique.mergeSort fun a b => !(a < b))

/-- The labels newest first. -/
def sort (labels : List String) : Except OrderFault (List String) := sortBy parseLabel? labels

end Quarterly.Quarter
