import Quarterly.Datum.Basic
import Quarterly.Number.Numeral

/-!
# Reading JSON

A JSON text becomes a data tree. Members keep their order, and of members with one key the last one
counts. Numbers without fraction and exponent are integers, all others doubles; by which rule a
double is found is for the caller to say, the nearest one being the usual choice.

The rules recurse on a count of rounds. A round consumes a character or leads to a rule that does,
so two rounds for each character are enough, and `read?` starts with two more.
-/

namespace Quarterly.Json

def isSpace (c : Char) : Bool := c == ' ' || c == '\t' || c == '\n' || c == '\r'

def skipSpace (cs : List Char) : List Char := cs.dropWhile isSpace

/-- The value of a hexadecimal digit. -/
def hexValue? (c : Char) : Option Nat :=
  if c.isDigit then some (c.toNat - 48)
  else if 'a' ≤ c ∧ c ≤ 'f' then some (c.toNat - 87)
  else if 'A' ≤ c ∧ c ≤ 'F' then some (c.toNat - 55)
  else none

/-- Four hexadecimal digits. -/
def hexUnit? : List Char → Option (Nat × List Char)
  | a :: b :: c :: d :: rest => do
    let n := ((← hexValue? a) * 16 + (← hexValue? b)) * 256 + (← hexValue? c) * 16 + (← hexValue? d)
    return (n, rest)
  | _ => none

/-- A character given by one sixteen-bit unit, or by two that make a pair. -/
def unicodeEscape? (cs : List Char) : Option (Char × List Char) := do
  let (unit, rest) ← hexUnit? cs
  if 0xd800 ≤ unit ∧ unit < 0xdc00 then
    match rest with
    | '\\' :: 'u' :: more => do
      let (low, rest) ← hexUnit? more
      guard (0xdc00 ≤ low && low < 0xe000)
      return (Char.ofNat (0x10000 + (unit - 0xd800) * 0x400 + (low - 0xdc00)), rest)
    | _ => none
  else return (Char.ofNat unit, rest)

/-- The character that a backslash and a letter stand for. -/
def simpleEscape? : Char → Option Char
  | '"' => some '"'
  | '\\' => some '\\'
  | '/' => some '/'
  | 'b' => some '\x08'
  | 'f' => some '\x0c'
  | 'n' => some '\n'
  | 'r' => some '\r'
  | 't' => some '\t'
  | _ => none

/-- The rest of a string behind its opening quote; `done` holds what was read, in reverse. -/
def stringRest? : Nat → List Char → List Char → Option (String × List Char)
  | 0, _, _ => none
  | _ + 1, _, [] => none
  | rounds + 1, done, c :: rest =>
    if c = '"' then some (String.ofList done.reverse, rest)
    else if c = '\\' then
      match rest with
      | 'u' :: more => do
        let (c, rest) ← unicodeEscape? more
        stringRest? rounds (c :: done) rest
      | letter :: rest => do stringRest? rounds ((← simpleEscape? letter) :: done) rest
      | [] => none
    else stringRest? rounds (c :: done) rest

/-- A rule that takes a written number to a double. -/
abbrev DoubleRule := Numeral → Float

/-- A number and what follows it. -/
def number? (toDouble : DoubleRule) (cs : List Char) : Option (Datum × List Char) := do
  let (negative, unsigned) := match cs with
    | '-' :: rest => (true, rest)
    | _ => (false, cs)
  let whole := unsigned.takeWhile Char.isDigit
  guard (!whole.isEmpty)
  let rest := unsigned.drop whole.length
  let isInteger := match rest with
    | '.' :: c :: _ => !c.isDigit
    | c :: _ => c != 'e' && c != 'E'
    | [] => true
  if isInteger then
    let n : Int := Text.decimalNumber whole
    return (.int (if negative then -n else n), rest)
  else do
    let (numeral, rest) ← Numeral.split? cs
    return (.double (toDouble numeral), rest)

/-- What follows a word, if it stands at the start. -/
def afterWord? (word : String) (cs : List Char) : Option (List Char) :=
  if word.toList.isPrefixOf cs then some (cs.drop word.length) else none

section

variable (toDouble : DoubleRule)

mutual

/-- A value; blanks before it are passed over. -/
def value? : Nat → List Char → Option (Datum × List Char)
  | 0, _ => none
  | rounds + 1, cs =>
    match skipSpace cs with
    | [] => none
    | '\x7b' :: rest => members? rounds [] true rest
    | '[' :: rest => elements? rounds [] true rest
    | '"' :: rest => (stringRest? rounds [] rest).map fun (s, rest) => (.text s, rest)
    | cs =>
      ((afterWord? "null" cs).map fun rest => (.null, rest)).or <|
      ((afterWord? "true" cs).map fun rest => (.bool true, rest)).or <|
      ((afterWord? "false" cs).map fun rest => (.bool false, rest)).or <|
      number? toDouble cs

/-- The elements of an array behind its bracket or behind a comma. -/
def elements? : Nat → List Datum → Bool → List Char → Option (Datum × List Char)
  | 0, _, _, _ => none
  | rounds + 1, done, isFirst, cs =>
    match skipSpace cs, isFirst with
    | ']' :: rest, true => some (.list [], rest)
    | cs, _ => do
      let (d, rest) ← value? rounds cs
      match skipSpace rest with
      | ',' :: rest => elements? rounds (d :: done) false rest
      | ']' :: rest => some (.list (d :: done).reverse, rest)
      | _ => none

/-- The members of an object behind its brace or behind a comma. -/
def members? : Nat → Keyed Datum → Bool → List Char → Option (Datum × List Char)
  | 0, _, _, _ => none
  | rounds + 1, done, isFirst, cs =>
    match skipSpace cs, isFirst with
    | '\x7d' :: rest, true => some (.mapping [], rest)
    | '"' :: rest, _ => do
      let (key, rest) ← stringRest? rounds [] rest
      match skipSpace rest with
      | ':' :: rest => do
        let (d, rest) ← value? rounds rest
        let done := done.put key d
        match skipSpace rest with
        | ',' :: rest => members? rounds done false rest
        | '\x7d' :: rest => some (.mapping done, rest)
        | _ => none
      | _ => none
    | _, _ => none

end

end

/-- The data tree that a JSON text stands for, with doubles by a rule. -/
def readWith? (toDouble : DoubleRule) (text : String) : Option Datum :=
  let cs := text.toList
  match value? toDouble (2 * cs.length + 2) cs with
  | some (d, rest) => if (skipSpace rest).isEmpty then some d else none
  | none => none

/-- The data tree that a JSON text stands for. -/
def read? (text : String) : Option Datum := readWith? Numeral.toFloat text

end Quarterly.Json
