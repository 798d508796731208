import Quarterly.Text.Digit

/-!
# What a formula mentions

A quick look at a formula without its grammar: which bracketed references it holds and which names
stand in front of a parenthesis. Quoted stretches are passed over if they end on their line. Tabs
count as blanks up to the next of the stops, which lie eight columns apart. Words are ASCII, and so
are the blanks between them.
-/

namespace Quarterly.Formula

/-- Something that a formula mentions. -/
inductive Mention where
  | reference (text : String)
  | call (name : String)
  | word
  | quotation
  deriving Repr, DecidableEq

namespace Mention

/-- A text with blanks in place of tabs, from a given column on. -/
def expandTabs (column : Nat) : List Char → List Char
  | [] => []
  | c :: rest =>
    if c = '\t' then
      let width := 8 - column % 8
      List.replicate width ' ' ++ expandTabs (column + width) rest
    else c :: expandTabs (if c = '\n' ∨ c = '\r' then 0 else column + 1) rest

def isSpace (c : Char) : Bool := c == ' ' || c == '\t' || c == '\r' || c == '\n'

def isWordStart (c : Char) : Bool := c.isAlpha || c == '_'

def isWordPart (c : Char) : Bool := c.isAlphanum || c == '_'

def skipSpace (cs : List Char) : List Char := cs.dropWhile isSpace

/-- What follows a given character, spaces before it aside. -/
def after? (mark : Char) (cs : List Char) : Option (List Char) :=
  match skipSpace cs with
  | c :: rest => if c = mark then some rest else none
  | [] => none

/-- What follows an index: digits, perhaps behind a letter. -/
def afterIndex? (cs : List Char) : Option (List Char) :=
  let digits := match cs with
    | c :: rest => if ['Q', 'q', 'P', 'p'].contains c then rest else cs
    | [] => []
  match digits with
  | c :: rest => if Text.isDecimal c then some (rest.dropWhile Text.isDecimal) else none
  | [] => none

/-- What follows the bracketed index behind a word, if there is one. -/
def afterBrackets? (cs : List Char) : Option (List Char) := do
  after? ']' (← afterIndex? (skipSpace (← after? '[' cs)))

/-- What follows a quotation that ends on its line; its opening quote has been read. -/
def afterQuotation? (quote : Char) (cs : List Char) : Option (List Char) :=
  match cs.dropWhile fun c => c != quote && c != '\n' && c != '\r' with
  | c :: rest => if c = quote then some rest else none
  | [] => none

/-- What is mentioned by the character `c` and those behind it, and how many of these it takes
up. -/
def at? (c : Char) (rest : List Char) : Option (Mention × Nat) :=
  let extra (after : List Char) : Nat := rest.length - after.length
  if c = '"' ∨ c = '\'' then
    (afterQuotation? c rest).map fun after => (quotation, extra after)
  else if isWordStart c then
    let more := rest.takeWhile isWordPart
    let behind := rest.dropWhile isWordPart
    match afterBrackets? behind with
    | some after =>
      some (reference (String.ofList (c :: rest.take (extra after))), extra after)
    | none =>
      if (after? '(' behind).isSome then some (call (String.ofList (c :: more)), more.length)
      else some (word, more.length)
  else none

/-- Everything that a text mentions, in order. -/
def scan : List Char → List Mention
  | [] => []
  | c :: rest =>
    match at? c rest with
    | some (mention, extra) => mention :: scan (rest.drop extra)
    | none => scan rest
  termination_by cs => cs.length
  decreasing_by all_goals simp_wf; try omega

/-- Everything that a formula mentions, in order. -/
def all (formula : List Char) : List Mention := scan (expandTabs 0 formula)

end Mention

end Quarterly.Formula
