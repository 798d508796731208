import Quarterly.Datum.Plain
import Quarterly.Number.Numeral
import Quarterly.Schema.Issue
import Quarterly.Text.Blank
import Quarterly.Text.Lowercase

/-!
# Checking data

A check reads a datum as something of a given type or reports issues. The reading is lenient:
integers may come as integral doubles, truth values or text, truth values as the usual words. The
checks of several fields are put together with `both`, which goes on after an issue, so that all
issues are found.
-/

namespace Quarterly.Schema

/-- The outcome of a check. -/
abbrev Checked (α : Type) := Except (List Issue) α

namespace Checked

/-- Report one problem. -/
def fail {α : Type} (problem : Problem) : Checked α := throw [⟨[], problem⟩]

/-- Place the issues of a check under a key. -/
def under {α : Type} (key : String) : Checked α → Checked α
  | .ok a => .ok a
  | .error issues => .error (issues.map fun i => { i with path := key :: i.path })

/-- Both results, or the issues of both checks. -/
def both {α β : Type} : Checked α → Checked β → Checked (α × β)
  | .ok a, .ok b => .ok (a, b)
  | .ok _, .error issues => .error issues
  | .error issues, .ok _ => .error issues
  | .error issues, .error more => .error (issues ++ more)

/-- All results, or the issues of all checks. -/
def all {α : Type} : List (Checked α) → Checked (List α)
  | [] => .ok []
  | c :: rest => (both c (all rest)).map fun p => p.1 :: p.2

end Checked

open Checked

/-- A check of one datum. -/
abbrev Check (α : Type) := Datum → Checked α

namespace Check

def string : Check String
  | .text s => pure s
  | _ => fail .stringType

/-- Null stands for nothing. -/
def optional {α : Type} (check : Check α) : Check (Option α)
  | .null => pure none
  | d => return some (← check d)

/-- A list whose items pass a check. Issues are placed under the position of the item. -/
def list {α : Type} (check : Check α) : Check (List α)
  | .list items => all (items.mapIdx fun i d => under (toString i) (check d))
  | _ => fail .listType

/-- The digits of a number without the underscores between them; none if an underscore stands
anywhere else. -/
def joinDigits : List Char → Option (List Char)
  | [] => some []
  | ['_'] => none
  | '_' :: '_' :: _ => none
  | c :: '_' :: d :: rest =>
    if c.isDigit && d.isDigit then (joinDigits (d :: rest)).map (c :: ·) else none
  | c :: rest => if c = '_' then none else (joinDigits rest).map (c :: ·)
  termination_by cs => cs.length

/-- A whole number in text: blanks around it, a sign, underscores between its digits and zeros
behind a point are allowed. -/
def integerText? (s : String) : Option Int := do
  let cs ← joinDigits (Text.trimChars s.toList)
  let (negative, unsigned) := Numeral.splitSign cs
  let digits := unsigned.takeWhile Char.isDigit
  guard !digits.isEmpty
  match unsigned.drop digits.length with
  | [] => pure ()
  | '.' :: zeros => guard (zeros.all (· == '0'))
  | _ => none
  let n : Int := Text.decimalNumber digits
  return if negative then -n else n

/-- An integral double within sixty-four bits. -/
def integralDouble (x : Float) : Checked Int :=
  if x.isNaN || x.isInf then fail .finiteNumber
  else match wholeValue? x with
    | none => fail .intFromFloat
    | some i => if i.natAbs < 1 <<< 63 then pure i else fail .intTooLong

def integer : Check Int
  | .int i => pure i
  | .bool b => pure (if b then 1 else 0)
  | .double x => integralDouble x
  | .text s =>
    match integerText? s with
    | some i => pure i
    | none => fail .intParsing
  | _ => fail .intType

/-- An integer that is above zero; the name of the field appears in the reason. -/
def positive (field : String) : Check Int := fun d => do
  let i ← integer d
  if i ≤ 0 then fail (.valueError (field ++ " must be positive, got: " ++ toString i)) else pure i

/-- The words for true. -/
def trueWords : List String := ["1", "true", "t", "yes", "y", "on"]

/-- The words for false. -/
def falseWords : List String := ["0", "false", "f", "no", "n", "off"]

/-- Zero and one as truth values. -/
def integerTruth (i : Int) : Checked Bool :=
  if i = 0 then pure false else if i = 1 then pure true else fail .boolParsing

def boolean : Check Bool
  | .bool b => pure b
  | .int i => if i.natAbs < 1 <<< 63 then integerTruth i else fail .boolType
  | .double x =>
    match integralDouble x with
    | .ok i => integerTruth i
    | .error _ => fail .boolType
  | .text s =>
    let small := Text.lower s
    if trueWords.contains small then pure true
    else if falseWords.contains small then pure false
    else fail .boolParsing
  | _ => fail .boolType

/-- The entries of a mapping that stands for a model. -/
def model (name : String) : Check (Keyed Datum)
  | .mapping entries => pure entries
  | _ => fail (.modelType name)

end Check

/-- A field that has to be there. -/
def required {α : Type} (entries : Keyed Datum) (key : String) (check : Check α) : Checked α :=
  under key <| match entries.get? key with
    | some d => check d
    | none => fail .missing

/-- A field that may be left out. -/
def withDefault {α : Type} (entries : Keyed Datum) (key : String) (default : α) (check : Check α) :
    Checked α :=
  match entries.get? key with
  | some d => under key (check d)
  | none => pure default

/-- No keys but those of the fields. -/
def noExtras (entries : Keyed Datum) (fields : List String) : Checked Unit :=
  match entries.filter fun e => !fields.contains e.1 with
  | [] => pure ()
  | extras => throw (extras.map fun e => ⟨[e.1], .extraForbidden⟩)

end Quarterly.Schema
