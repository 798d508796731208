import Quarterly.Formula.Journal

/-!
# Formulas with values in place of references

Every bracketed reference of an evaluation is replaced by its value wherever it stands in the
formula outside quotes. A reference is only found where no word runs into it, and longer references
are replaced first, so none is taken for a part of another.
-/

namespace Quarterly.Formula

/-- A stretch of a formula, inside quotes or outside. -/
structure Segment where
  quoted : Bool
  chars : List Char
  deriving Repr, DecidableEq

namespace Segment

/-- Split a formula at its quotes. A quoted stretch keeps its quotes; one without a closing quote
runs to the end. `outside` holds, in reverse, the characters since the last quoted stretch. -/
def split (outside : List Char) : List Char → List Segment
  | [] => [⟨false, outside.reverse⟩]
  | c :: rest =>
    if c = '"' ∨ c = '\'' then
      let body := rest.takeWhile (· != c)
      let closing := (rest.drop body.length).take 1
      ⟨false, outside.reverse⟩ :: ⟨true, c :: body ++ closing⟩ ::
        split [] (rest.drop (body.length + 1))
    else split (c :: outside) rest
  termination_by cs => cs.length
  decreasing_by all_goals simp_wf; try omega

end Segment

/-- Whether a character belongs to words, so that a reference cannot start behind it. -/
def isWordChar (c : Char) : Bool := c.isAlphanum || c == '_'

/-- Replace a text wherever it stands and no word runs into it. `inWord` tells whether a word runs
into the first character. -/
def replaceWhole (wanted replacement : List Char) (inWord : Bool) : List Char → List Char
  | [] => []
  | c :: rest =>
    if !inWord && wanted.isPrefixOf (c :: rest) then
      replacement ++ replaceWhole wanted replacement (wanted.getLast?.any isWordChar)
        (rest.drop (wanted.length - 1))
    else c :: replaceWhole wanted replacement (isWordChar c) rest
  termination_by cs => cs.length
  decreasing_by all_goals simp_wf; try omega

/-- The bracketed references of some substitutions with their values, each at its first
occurrence. -/
def bracketed : List Substitution → Keyed Value
  | [] => []
  | s :: rest =>
    let others := bracketed rest
    if s.reference.toList.contains '[' then
      (s.reference, s.value) :: others.filter fun e => e.1 != s.reference
    else others

/-- Replace a reference by its value outside quotes. -/
def Segment.substitute (reference : String) (value : Value) (segment : Segment) : Segment :=
  if segment.quoted then segment
  else ⟨false, replaceWhole reference.toList value.toText.toList false segment.chars⟩

/-- A formula with every bracketed reference replaced by its value. -/
def substituted (formula : String) (substitutions : List Substitution) : String :=
  let references := (bracketed substitutions).mergeSort fun a b => b.1.length ≤ a.1.length
  let segments := references.foldl
    (fun segments r => segments.map (Segment.substitute r.1 r.2))
    (Segment.split [] formula.toList)
  String.ofList (segments.flatMap (·.chars))

end Quarterly.Formula
