import Quarterly.Formula.Evaluation
import Quarterly.Formula.Mention
import Quarterly.Formula.Written

/-!
# Validation

A formula is checked before it meets any data. It must not be empty, must call no unknown function,
and must evaluate over an empty window without fault; syntax and numbers of arguments are found out
that way. Two faults are not those of a formula but of the tokens or the library it is evaluated
with; they are passed on.
-/

namespace Quarterly.Formula

/-- What a check of a formula found. -/
structure Validation where
  /-- The formula as it was given. -/
  formula : Datum
  error : Option String
  references : List String
  functions : List String
  unknownFunctions : List String
  notices : List Notice

namespace Validation

def valid (v : Validation) : Bool := v.error.isNone

end Validation

/-- The elements of a list, each at its first place only. -/
def unique (names : List String) : List String := Quarter.distinct names

/-- The bracketed references in a formula, each once, in order. -/
def extractReferences (written : String) : List String :=
  unique <| (Mention.all (formulaChars written)).filterMap fun
    | .reference text => some text
    | _ => none

/-- The names that a formula calls, in capitals, each once, in alphabetical order. -/
def extractFunctions (written : String) : List String :=
  let names := (Mention.all (formulaChars written)).filterMap fun
    | .call name => some (name.map Char.toUpper)
    | _ => none
  (unique names).mergeSort fun a b => !(b < a)

namespace Fault

/-- Whether a fault is one of the formula itself. -/
def isOfFormula : Fault → Bool
  | notInLibrary _ | pastLastToken => false
  | _ => true

end Fault

/-- Evaluate a formula over an empty window. -/
def dryCheck (formula : List Char) : Evaluation :=
  let context : Context :=
    { formula
      tokens := (tokenize isFunctionName (String.ofList formula)).toArray
      table := .ofCells [] [] none }
  evaluate context .live []

/-- Check a formula. -/
def validate (written : Datum) : Except Fault Validation := do
  let chars := formulaChars (writtenText written)
  let nothing : Validation := ⟨written, some "Formula is empty", [], [], [], []⟩
  if chars.isEmpty then return nothing
  let text := String.ofList chars
  let called := extractFunctions text
  let found : Validation :=
    { nothing with
      error := none
      references := extractReferences text
      functions := called.filter isFunctionName
      unknownFunctions := called.filter fun name => !isFunctionName name }
  if !found.unknownFunctions.isEmpty then
    return { found with
      error := some ("Unknown function(s): " ++ ", ".intercalate found.unknownFunctions) }
  let run := dryCheck chars
  let found := { found with notices := run.journal.notices.toList }
  match run.outcome with
  | .ok _ => return found
  | .error fault =>
    if fault.isOfFormula then return { found with error := some fault.message } else throw fault

/-- A formula with a name. -/
structure NamedValidation where
  name : Datum
  validation : Validation

/-- Check named formulas. A missing name or formula counts as unknown or empty. -/
def validateAll (formulas : List (Keyed Datum)) : Except Fault (List NamedValidation) :=
  formulas.mapM fun entries => do
    let validation ← validate ((entries.get? "formula").getD (.text ""))
    return ⟨(entries.get? "name").getD (.text "unknown"), validation⟩

/-- The errors of named formulas, each behind its name. -/
def errorsOf (checked : List NamedValidation) : List String :=
  checked.filterMap fun c => c.validation.error.map fun e => c.name.plain ++ ": " ++ e

end Quarterly.Formula
