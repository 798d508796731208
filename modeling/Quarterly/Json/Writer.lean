import Quarterly.Datum.Plain

/-!
# Writing JSON

A data tree as JSON text, on one line or indented. Characters outside ASCII are written as
themselves or escaped as sixteen-bit units.
-/

namespace Quarterly.Json

/-- The decisions about blanks and escapes. -/
structure Layout where
  /-- Whether only ASCII is written. -/
  asciiOnly : Bool
  /-- The blanks by which each level is indented, one item to a line; none for a single line. -/
  indent : Option Nat
  deriving Repr, DecidableEq

namespace Layout

/-- Everything on one line, characters as themselves. -/
def compact : Layout := ⟨false, none⟩

/-- For reading by people: two blanks for each level, ASCII only. -/
def readable : Layout := ⟨true, some 2⟩

end Layout

/-- A sixteen-bit unit as an escape. -/
def unitEscape (unit : Nat) : List Char := '\\' :: 'u' :: Text.hexPadded 4 unit

/-- A character inside a string. -/
def escapedChar (asciiOnly : Bool) (c : Char) : List Char :=
  match c with
  | '"' => ['\\', '"']
  | '\\' => ['\\', '\\']
  | '\n' => ['\\', 'n']
  | '\r' => ['\\', 'r']
  | '\t' => ['\\', 't']
  | '\x08' => ['\\', 'b']
  | '\x0c' => ['\\', 'f']
  | c =>
    let code := c.toNat
    if code < 32 then unitEscape code
    else if code < 127 || !asciiOnly then [c]
    else if code < 0x10000 then unitEscape code
    else
      let pair := code - 0x10000
      unitEscape (0xd800 + pair / 0x400) ++ unitEscape (0xdc00 + pair % 0x400)

/-- A string with its quotes. -/
def stringText (layout : Layout) (s : String) : String :=
  String.ofList ('"' :: s.toList.flatMap (escapedChar layout.asciiOnly) ++ ['"'])

/-- How doubles are written; the values without digits have names. -/
def numberLayout : DoubleLayout := { DoubleLayout.plain with nan := "NaN", infinity := "Infinity" }

/-- A line break and the blanks of a level, if there are lines. -/
def lineStart (layout : Layout) (level : Nat) : String :=
  match layout.indent with
  | none => ""
  | some width => "\n" ++ String.ofList (List.replicate (width * level) ' ')

/-- Items between brackets. -/
def bracketed (layout : Layout) (level : Nat) (opening closing : String) (items : List String) :
    String :=
  if items.isEmpty then opening ++ closing
  else
    let separator := if layout.indent.isSome then "," ++ lineStart layout (level + 1) else ", "
    opening ++ lineStart layout (level + 1) ++ separator.intercalate items ++
      lineStart layout level ++ closing

mutual

/-- A datum at a level of nesting. -/
def write (layout : Layout) (level : Nat) : Datum → String
  | .null => "null"
  | .bool b => if b then "true" else "false"
  | .int i => toString i
  | .double x => numberLayout.write x
  | .text s => stringText layout s
  | .date d => stringText layout (Moment.dateText d)
  | .moment m => stringText layout m.text
  | .list items => bracketed layout level "[" "]" (writeItems layout (level + 1) items)
  | .mapping entries =>
    bracketed layout level "\x7b" "\x7d" (writeEntries layout (level + 1) entries)

def writeItems (layout : Layout) (level : Nat) : List Datum → List String
  | [] => []
  | d :: rest => write layout level d :: writeItems layout level rest

def writeEntries (layout : Layout) (level : Nat) : List (String × Datum) → List String
  | [] => []
  | (key, d) :: rest =>
    (stringText layout key ++ ": " ++ write layout level d) :: writeEntries layout level rest

end

/-- A data tree as JSON. -/
def render (layout : Layout) (d : Datum) : String := write layout 0 d

end Quarterly.Json
