import Quarterly.Sheet.Basic

/-!
# Delimited text

Sheets as lines of fields between commas. A field in quotes can hold commas, line ends and, written
twice, quotes. Lines without a field are passed over. The first line names the columns; when the
lines below have more fields, the first fields of a line label it.
-/

namespace Quarterly.Sheet

/-- Why a delimited text is no sheet. -/
inductive DelimitedFault where
  /-- There is no line with a field. -/
  | noColumns
  | tooManyFields (expected line found : Nat)
  /-- A quoted field has no end; as many lines lie before the one where it starts. -/
  | openQuote (linesBefore : Nat)
  deriving Repr, DecidableEq

namespace DelimitedFault

/-- The wording of a fault. -/
def message : DelimitedFault → String
  | noColumns => "No columns to parse from file"
  | tooManyFields expected line found =>
    "Error tokenizing data. C error: Expected " ++ toString expected ++ " fields in line " ++
      toString line ++ ", saw " ++ toString found ++ "\n"
  | openQuote linesBefore =>
    "Error tokenizing data. C error: EOF inside string starting at row " ++ toString linesBefore

end DelimitedFault

/-! ## Lines of fields -/

/-- Where in a line a scan is. -/
inductive Place where
  | lineStart
  /-- Behind nothing but blanks. -/
  | blankStart
  | fieldStart
  | inField
  | inQuotes
  /-- Behind a quote that ends a field or stands for itself. -/
  | behindQuote
  /-- Behind a carriage return that ends a line with fields. -/
  | behindReturn
  /-- Behind a carriage return that ends a line without any. -/
  | behindIdleReturn
  deriving Repr, DecidableEq

/-- A line with its number in the text. -/
structure NumberedLine where
  number : Nat
  fields : List String
  deriving Repr, DecidableEq

/-- What a scan has found; everything is kept in reverse. -/
structure Scan where
  place : Place := .lineStart
  field : List Char := []
  fields : List String := []
  lines : List NumberedLine := []
  /-- How many lines have ended. -/
  passed : Nat := 0
  deriving Repr, DecidableEq

namespace Scan

def endField (s : Scan) : Scan :=
  { s with place := .fieldStart, field := [], fields := String.ofList s.field.reverse :: s.fields }

/-- End a line that has fields. -/
def endLine (s : Scan) : Scan :=
  { s with
    place := .lineStart
    fields := []
    lines := ⟨s.passed + 1, s.fields.reverse⟩ :: s.lines
    passed := s.passed + 1 }

/-- Pass over a line without fields. -/
def passLine (s : Scan) (place : Place) : Scan :=
  { s with place, field := [], passed := s.passed + 1 }

def push (s : Scan) (place : Place) (c : Char) : Scan := { s with place, field := c :: s.field }

/-- Read a character where a field starts. -/
def atFieldStart (s : Scan) (c : Char) : Scan :=
  match c with
  | '\n' => s.endField.endLine
  | '\r' => { s.endField with place := .behindReturn }
  | '"' => { s with place := .inQuotes }
  | ',' => s.endField
  | c => s.push .inField c

/-- Read a character inside a field without quotes. -/
def atField (s : Scan) (c : Char) : Scan :=
  match c with
  | '\n' => s.endField.endLine
  | '\r' => { s.endField with place := .behindReturn }
  | ',' => s.endField
  | c => s.push .inField c

/-- Read a character where a line starts. -/
def atLineStart (s : Scan) (c : Char) : Scan :=
  match c with
  | '\n' => s.passLine .lineStart
  | '\r' => s.passLine .behindIdleReturn
  | ' ' | '\t' => s.push .blankStart c
  | c => s.atFieldStart c

/-- Read a character. -/
def step (s : Scan) (c : Char) : Scan :=
  match s.place with
  | .lineStart => s.atLineStart c
  | .blankStart =>
    match c with
    | '\n' => s.passLine .lineStart
    | '\r' => s.passLine .behindIdleReturn
    | ' ' | '\t' => s.push .blankStart c
    | c => s.atField c
  | .fieldStart => s.atFieldStart c
  | .inField => s.atField c
  | .inQuotes => if c = '"' then { s with place := .behindQuote } else s.push .inQuotes c
  | .behindQuote => if c = '"' then s.push .inQuotes c else s.atField c
  | .behindReturn => if c = '\n' then s.endLine else s.endLine.atLineStart c
  | .behindIdleReturn => if c = '\n' then { s with place := .lineStart } else s.atLineStart c

/-- End a scan. -/
def finish (s : Scan) : Scan :=
  match s.place with
  | .lineStart | .blankStart | .behindIdleReturn | .inQuotes => s
  | .behindReturn => s.endLine
  | .fieldStart | .inField | .behindQuote => s.endField.endLine

end Scan

/-- The scan of a text. -/
def scan (cs : List Char) : Scan := (cs.foldl Scan.step {}).finish

/-! ## Sheets -/

/-- The words that mark a missing value. -/
def missingWords : List String := [
  "", "#N/A", "#N/A N/A", "#NA", "-1.#IND", "-1.#QNAN", "-NaN", "-nan", "1.#IND", "1.#QNAN",
  "<NA>", "N/A", "NA", "NULL", "NaN", "None", "n/a", "nan", "null"]

/-- The datum in a field. -/
def fieldDatum (field : String) : Datum :=
  if missingWords.contains field then .null else .text field

/-- A name for a column that others have as well, with the least free number behind it. -/
def freshName (taken : List String) (name : String) : Nat → Nat → String
  | _, 0 => name
  | number, tries + 1 =>
    let candidate := name ++ "." ++ toString number
    if taken.contains candidate then freshName taken name (number + 1) tries else candidate

/-- The names of columns, each made different from those before it. -/
def distinctNames (taken : List String) : List String → List String
  | [] => []
  | name :: rest =>
    let others := taken ++ rest
    let name := if taken.contains name then freshName others name 1 (others.length + 1) else name
    name :: distinctNames (taken ++ [name]) rest

/-- The names of columns as they are written; a column without a name is named by its place. -/
def columnNames (header : List String) : List String :=
  distinctNames [] <| header.mapIdx fun i name =>
    if name.isEmpty then "Unnamed: " ++ toString i else name

/-- Lines with missing fields filled up to a width; none may have more. -/
def fitLines (width : Nat) (lines : List NumberedLine) :
    Except DelimitedFault (List (List String)) :=
  lines.mapM fun line =>
    let found := line.fields.length
    if width < found then throw (.tooManyFields width line.number found)
    else pure (line.fields ++ List.replicate (width - found) "")

/-- The label that some fields in front of a row give it. -/
def labelOf : List String → String
  | [field] => if missingWords.contains field then "nan" else field
  | fields => "(" ++ ", ".intercalate (fields.map fun field =>
      if missingWords.contains field then "nan" else Text.quoted field) ++ ")"

/-- The rows below a header. -/
def rowsOf (labels : Nat) (lines : List (List String)) : List SheetRow :=
  lines.mapIdx fun i fields =>
    ⟨if labels = 0 then toString i else labelOf (fields.take labels),
      (fields.drop labels).map fieldDatum⟩

/-- The sheet that a delimited text writes. The line below the header settles how many fields a line
can have. -/
def ofDelimited (text : String) : Except DelimitedFault Sheet := do
  let cs := match text.toList with
    | '\ufeff' :: rest => rest
    | cs => cs
  let found := scan cs
  let closed : Except DelimitedFault Unit :=
    if found.place = .inQuotes then throw (.openQuote found.passed) else pure ()
  match found.lines.reverse with
  | [] =>
    closed
    throw .noColumns
  | header :: lines =>
    let width := max header.fields.length ((lines.head?.map (·.fields.length)).getD 0)
    let rows ← fitLines width lines
    closed
    return ⟨columnNames header.fields, rowsOf (width - header.fields.length) rows⟩

/-! ## Writing -/

/-- A field in a line. -/
def fieldText (s : String) : String :=
  if s.toList.any [',', '"', '\n'].contains then
    String.ofList ('"' :: s.toList.flatMap (fun c => if c = '"' then ['"', '"'] else [c]) ++ ['"'])
  else s

/-- A line of fields. -/
def lineText (fields : List String) : String := ",".intercalate (fields.map fieldText) ++ "\n"

/-- Lines of fields under the names of columns. -/
def delimitedText (columns : List String) (lines : List (List String)) : String :=
  lineText columns ++ String.join (lines.map lineText)

end Quarterly.Sheet
