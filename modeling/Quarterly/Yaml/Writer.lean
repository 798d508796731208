import Quarterly.Datum.Plain
import Quarterly.Number.Written
import Quarterly.Text.Quoted
import Quarterly.Yaml.Scalar
import Quarterly.Yaml.ScalarText

/-!
# Writing YAML

A data tree is written by indentation, two columns to a level; a sequence in a mapping stands at
the column of its key. A text is written without quotes if it reads back as the same text, else in
single quotes, and in double quotes with escapes if it holds anything but visible ASCII. A line
that has grown over its width is broken at the next space.
-/

namespace Quarterly.Yaml

/-- The width over which lines are broken. -/
def lineWidth : Nat := 80

/-- The columns of a level of indentation. -/
def levelWidth : Nat := 2

/-! ## The style of a text -/

/-- How a text is written. -/
inductive Style where
  | plain
  | single
  | double
  deriving Repr, DecidableEq

/-- Whether a character is written as an escape. -/
def needsEscape (c : Char) : Bool := c != '\n' && !(' ' ≤ c && c ≤ '~')

/-- The characters that cannot start a text without quotes. -/
def openingMarks : List Char :=
  ['#', ',', '[', ']', '\x7b', '\x7d', '&', '*', '!', '|', '>', '\'', '"', '%', '@', '\x60']

/-- Whether a text starts with a mark. -/
def opensWithMark : List Char → Bool
  | [] => false
  | c :: rest =>
    openingMarks.contains c || ((c == '?' || c == ':' || c == '-') && endsWord rest)

/-- Whether a character behind the first one is a mark: a colon that ends a word, or a number sign
that starts one. -/
def hasInnerMark (behindSeparator : Bool) : List Char → Bool
  | [] => false
  | c :: rest =>
    (c == ':' && endsWord rest) || (c == '#' && behindSeparator) ||
      hasInnerMark (isSeparator c) rest

/-- Whether a text has marks that cannot stand without quotes. -/
def hasMarks (cs : List Char) : Bool :=
  opensWithMark cs || ['-', '-', '-'].isPrefixOf cs || ['.', '.', '.'].isPrefixOf cs ||
    match cs with
    | [] => false
    | c :: rest => hasInnerMark (isSeparator c) rest

/-- Whether two neighbours in a text are of given kinds. -/
def hasPair (first second : Char → Bool) : List Char → Bool
  | a :: b :: rest => (first a && second b) || hasPair first second (b :: rest)
  | _ => false

/-- Whether a text starts or ends with a space or a line end. -/
def hasBlankEnds (cs : List Char) : Bool :=
  cs.head?.any (fun c => c == ' ' || isBreak c) || cs.getLast?.any (fun c => c == ' ' || isBreak c)

/-- The style of a text. -/
def styleOf (cs : List Char) : Style :=
  let isSpace (c : Char) : Bool := c == ' '
  if cs.any needsEscape || hasPair isSpace isBreak cs then .double
  else if !isTextScalar (String.ofList cs) || hasBlankEnds cs || cs.any isBreak || hasMarks cs then
    if hasPair isBreak isSpace cs then .double else .single
  else .plain

/-! ## Texts on lines of limited width -/

/-- What has been written of a scalar, in reverse, and the column behind it. -/
structure Line where
  written : List Char
  column : Nat
  deriving Repr, DecidableEq

namespace Line

/-- Write characters of one line. -/
def put (l : Line) (cs : List Char) : Line := ⟨cs.reverse ++ l.written, l.column + cs.length⟩

/-- Start a new line at a column. -/
def breakTo (l : Line) (column : Nat) : Line :=
  ⟨List.replicate column ' ' ++ '\n' :: l.written, column⟩

/-- End a line and write nothing more. -/
def lineEnd (l : Line) : Line := ⟨'\n' :: l.written, 0⟩

end Line

/-- The runs of spaces, line ends and other characters that a text consists of. -/
inductive Run where
  | word (cs : List Char)
  | spaces (count : Nat)
  | breaks (count : Nat)
  deriving Repr, DecidableEq

/-- A text in runs; the current run is given in reverse. -/
def Run.split : List Char → List Run
  | [] => []
  | c :: rest =>
    match Run.split rest with
    | .spaces n :: runs => if c = ' ' then .spaces (n + 1) :: runs else before c (.spaces n :: runs)
    | .breaks n :: runs => if c = '\n' then .breaks (n + 1) :: runs else before c (.breaks n :: runs)
    | .word cs :: runs =>
      if c = ' ' ∨ c = '\n' then before c (.word cs :: runs) else .word (c :: cs) :: runs
    | [] => before c []
where
  /-- A run of one character in front of runs of another kind. -/
  before (c : Char) (runs : List Run) : List Run :=
    (if c = ' ' then .spaces 1 else if c = '\n' then .breaks 1 else .word [c]) :: runs

/-- Spaces in a text. A single one becomes a line end once the line is over its width. -/
def putSpaces (column : Nat) (canBreak : Bool) (count : Nat) (l : Line) : Line :=
  if count == 1 && lineWidth < l.column && canBreak then l.breakTo column
  else l.put (List.replicate count ' ')

/-- A text without quotes. -/
def putPlain (column : Nat) (runs : List Run) (l : Line) : Line :=
  runs.foldl (fun l run => match run with
    | .word cs => l.put cs
    | .spaces n => putSpaces column true n l
    | .breaks n => (List.replicate (n + 1) ()).foldl (fun l _ => l.lineEnd) l) l

/-- A text between single quotes. The spaces at its ends stay where they are; line ends are written
once more than they are read. -/
def putSingle (column : Nat) (isFirst : Bool) : List Run → Line → Line
  | [], l => l
  | .word cs :: rest, l =>
    putSingle column false rest (l.put (cs.flatMap fun c => if c = '\'' then ['\'', '\''] else [c]))
  | .spaces n :: rest, l =>
    putSingle column false rest (putSpaces column (!isFirst && !rest.isEmpty) n l)
  | .breaks n :: rest, l =>
    let ended := (List.replicate n ()).foldl (fun l _ => l.lineEnd) l
    putSingle column false rest (ended.breakTo column)

/-- An escape of a character. -/
def escapeOf (c : Char) : List Char :=
  match escapes.find? fun e => e.2 == c with
  | some (letter, _) => ['\\', letter]
  | none =>
    let code := c.toNat
    let digits (width : Nat) : List Char := (Text.hexPadded width code).map Char.toUpper
    if code < 0x100 then '\\' :: 'x' :: digits 2
    else if code < 0x10000 then '\\' :: 'u' :: digits 4
    else '\\' :: 'U' :: digits 8

/-- Whether a character is escaped between double quotes. -/
def isEscaped (c : Char) : Bool := needsEscape c || c == '\n' || c == '"' || c == '\\'

/-- A text between double quotes. `pending` holds, in reverse, characters that are not written yet;
`isFirst` tells whether the next character is the first. A line over its width ends with a
backslash before a space or behind an escape, and a space that starts the next line has one too. -/
def putDouble (column : Nat) (isFirst : Bool) (pending : List Char) : List Char → Line → Line
  | [], l => l.put pending.reverse
  | c :: rest, l =>
    let escaped := isEscaped c
    let l := if escaped then (l.put pending.reverse).put (escapeOf c) else l
    let pending := if escaped then [] else pending
    let canBreak := !isFirst && !rest.isEmpty && (c == ' ' || pending.isEmpty)
    let reached := if escaped then l.column - 1 else l.column + pending.length
    if canBreak && lineWidth < reached then
      let l := (l.put (pending.reverse ++ ['\\'])).breakTo column
      let nextIsSpace := if escaped then rest.head? == some ' ' else c == ' '
      let l := if nextIsSpace then l.put ['\\'] else l
      putDouble column false (if escaped then [] else [c]) rest l
    else putDouble column false (if escaped then [] else c :: pending) rest l

/-- A text at the end of a line. Its further lines start at the given column. -/
def putText (column : Nat) (s : String) (l : Line) : Line :=
  let cs := s.toList
  match styleOf cs with
  | .plain => putPlain column (Run.split cs) l
  | .single => (putSingle column true (Run.split cs) (l.put ['\''])).put ['\'']
  | .double => (putDouble column true [] cs (l.put ['"'])).put ['"']

/-- A text that starts behind a given number of columns. -/
def textAt (start column : Nat) (s : String) : String :=
  String.ofList (putText column s ⟨[], start⟩).written.reverse

/-! ## Trees -/

/-- How doubles are written: always with a point, and with names of their own for those without
digits. -/
def doubleText (x : Float) : String :=
  let layout : DoubleLayout :=
    { DoubleLayout.plain with nan := ".nan", infinity := ".inf" }
  let cs := (layout.write x).toList
  let digits := cs.takeWhile (· != 'e')
  if cs.contains 'e' && !cs.contains '.' then
    String.ofList (digits ++ ['.', '0'] ++ cs.drop digits.length)
  else String.ofList cs

/-- A scalar. Collections have rules of their own; only empty ones fit on a line. -/
def scalarText (start column : Nat) : Datum → String
  | .null => "null"
  | .bool b => if b then "true" else "false"
  | .int i => toString i
  | .double x => doubleText x
  | .text s => textAt start column s
  | .date d => Moment.dateText d
  | .moment m => Datum.plainMoment m
  | .list _ => "[]"
  | .mapping _ => "\x7b\x7d"

/-- Spaces up to a column. -/
def margin (column : Nat) : String := String.ofList (List.replicate column ' ')

/-- The margin of a line; the first line of a collection finds its margin written. -/
def marginOf (isFirst : Bool) (column : Nat) : String := if isFirst then "" else margin column

mutual

/-- The value behind the colon of a key at a column, with the end of its line. `start` is the
column behind the colon. -/
def valueText (start column : Nat) : Datum → String
  | .list items =>
    if items.isEmpty then " []\n" else "\n" ++ margin column ++ itemsText column true items
  | .mapping entries =>
    if entries.isEmpty then " \x7b\x7d\n"
    else "\n" ++ margin (column + levelWidth) ++ entriesText (column + levelWidth) true entries
  | d => " " ++ scalarText (start + 1) (column + levelWidth) d ++ "\n"

/-- An item behind a dash at a column. A collection starts on the line of the dash. -/
def itemText (column : Nat) : Datum → String
  | .list items => if items.isEmpty then "[]\n" else itemsText (column + levelWidth) true items
  | .mapping entries =>
    if entries.isEmpty then "\x7b\x7d\n" else entriesText (column + levelWidth) true entries
  | d => scalarText (column + levelWidth) (column + levelWidth) d ++ "\n"

/-- The items of a sequence at a column. -/
def itemsText (column : Nat) (isFirst : Bool) : List Datum → String
  | [] => ""
  | d :: rest => marginOf isFirst column ++ "- " ++ itemText column d ++ itemsText column false rest

/-- The entries of a mapping at a column. -/
def entriesText (column : Nat) (isFirst : Bool) : List (String × Datum) → String
  | [] => ""
  | (key, d) :: rest =>
    let keyText := textAt 0 0 key
    marginOf isFirst column ++ keyText ++ ":" ++
      valueText (column + keyText.length + 1) column d ++ entriesText column false rest

end

/-- A data tree as YAML. -/
def render : Datum → String
  | .list items => if items.isEmpty then "[]\n" else itemsText 0 true items
  | .mapping entries => if entries.isEmpty then "\x7b\x7d\n" else entriesText 0 true entries
  | d => scalarText 0 levelWidth d ++ "\n"

end Quarterly.Yaml
