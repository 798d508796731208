import Quarterly.Datum.Plain
import Quarterly.Yaml.Scalar
import Quarterly.Yaml.ScalarText

/-!
# Reading YAML

A YAML text with one document becomes a data tree. Collections are written by indentation or in
brackets, scalars without quotes, in quotes or as blocks. A key and its colon stand on one line.
Of entries with one key the last one counts. Anchors, tags, directives and keys behind question
marks are not read.

The rules recurse on a count of rounds. A round consumes a character or leads to a rule that does,
and no more than three rules follow each other at one place, so four rounds for each character
are enough.
-/

namespace Quarterly.Yaml

open Cursor

/-- A datum and the place behind it. -/
abbrev Read := Option (Datum × Cursor)

/-- The text of a key. Collections cannot be keys. -/
def keyText? : Datum → Option String
  | .list _ | .mapping _ => none
  | d => some d.plain

/-- A scalar in quotes. -/
def quoted? (cur : Cursor) : Read :=
  let rounds := cur.rest.length + 1
  let text (r : Option (List Char × Cursor)) : Read :=
    r.map fun (cs, cur) => (.text (String.ofList cs), cur)
  match cur.rest with
  | '\'' :: _ => text (singleQuoted? cur.next rounds)
  | '"' :: _ => text (doubleQuoted? cur.next rounds)
  | _ => none

/-- A scalar without quotes. -/
def plain? (inFlow : Bool) (column : Nat) (cur : Cursor) : Read := do
  guard (startsPlain inFlow cur.rest)
  let (cs, cur) := plainText inFlow column cur
  return (← scalar? (String.ofList cs), cur)

/-- Whether a scalar in quotes comes next. -/
def startsQuoted (cs : List Char) : Bool := cs.head?.any fun c => c == '\'' || c == '"'

/-- A scalar on one line or several, but no block. -/
def lineScalar? (inFlow : Bool) (column : Nat) (cur : Cursor) : Read :=
  if startsQuoted cur.rest then quoted? cur else plain? inFlow column cur

/-- Whether a bracket or a comma ends an item in brackets. -/
def endsItem (cur : Cursor) : Bool := cur.rest.head?.any [',', ']', '\x7d'].contains

/-! ## In brackets -/

mutual

/-- A node in brackets. -/
def flowNode? : Nat → Cursor → Read
  | 0, _ => none
  | rounds + 1, cur =>
    match cur.rest with
    | '[' :: _ => flowItems? rounds [] cur.next
    | '\x7b' :: _ => flowEntries? rounds [] cur.next
    | _ => lineScalar? true 0 cur

/-- What stands behind a key in brackets: a colon and a value, a colon alone, or nothing. The
result tells whether there was a colon; it has to stand on the line of its key. -/
def flowValue? (rounds : Nat) (keyLine : Nat) (cur : Cursor) : Option (Bool × Datum × Cursor) :=
  match rounds with
  | 0 => none
  | rounds + 1 =>
    let cur := cur.token
    match cur.rest with
    | ':' :: _ =>
      let behind := cur.next.token
      if cur.line != keyLine then none
      else if endsItem behind then some (true, .null, behind)
      else (flowNode? rounds behind).map fun (d, behind) => (true, d, behind)
    | _ => some (false, .null, cur)

/-- The items of a sequence in brackets, those that are read already given in reverse. A key with a
value is a mapping of its own. -/
def flowItems? : Nat → List Datum → Cursor → Read
  | 0, _, _ => none
  | rounds + 1, done, cur =>
    let cur := cur.token
    match cur.rest with
    | ']' :: _ => some (.list done.reverse, cur.next)
    | _ => do
      let (d, behind) ← flowNode? rounds cur
      let (isKey, value, behind) ← flowValue? rounds cur.line behind
      let item ← if isKey then (keyText? d).map fun key => Datum.mapping [(key, value)] else some d
      let behind := behind.token
      match behind.rest with
      | ',' :: _ => flowItems? rounds (item :: done) behind.next
      | ']' :: _ => some (.list (item :: done).reverse, behind.next)
      | _ => none

/-- The entries of a mapping in brackets behind those that are read already. -/
def flowEntries? : Nat → Keyed Datum → Cursor → Read
  | 0, _, _ => none
  | rounds + 1, done, cur =>
    let cur := cur.token
    match cur.rest with
    | '\x7d' :: _ => some (.mapping done, cur.next)
    | _ => do
      let (d, behind) ← flowNode? rounds cur
      let key ← keyText? d
      let (_, value, behind) ← flowValue? rounds cur.line behind
      let done := done.put key value
      let behind := behind.token
      match behind.rest with
      | ',' :: _ => flowEntries? rounds done behind.next
      | '\x7d' :: _ => some (.mapping done, behind.next)
      | _ => none

end

/-- A scalar that is no block, or a node in brackets. Further lines of a scalar start at the given
column or behind it. -/
def inline? (column : Nat) (cur : Cursor) : Read :=
  match cur.rest with
  | '[' :: _ | '\x7b' :: _ => flowNode? (4 * cur.rest.length + 4) cur
  | _ => lineScalar? false column cur

/-! ## By indentation -/

/-- A block behind its mark. -/
def block? (folded : Bool) (column : Nat) (cur : Cursor) : Read :=
  (blockText? folded column cur).map fun (cs, cur) => (.text (String.ofList cs), cur)

mutual

/-- A node at a token. `column` is the least column that its lines can have, and `keyed` tells
whether a collection can start here. -/
def node? : Nat → (column : Nat) → (keyed : Bool) → Cursor → Read
  | 0, _, _, _ => none
  | rounds + 1, column, keyed, cur =>
    if cur.hasSign '-' then
      if keyed then items? rounds cur.column false [] cur else none
    else match cur.rest with
      | '|' :: _ => block? false column cur.next
      | '>' :: _ => block? true column cur.next
      | _ => do
        let (d, behind) ← inline? column cur
        let behind := behind.token
        if behind.line == cur.line && behind.hasSign ':' then do
          let key ← if keyed then keyText? d else none
          let (value, behind) ← value? rounds cur.column behind.next
          entries? rounds cur.column [(key, value)] behind
        else some (d, behind)

/-- The value behind a colon in a mapping at a column. Nothing there is null. -/
def value? : Nat → (column : Nat) → Cursor → Read
  | 0, _, _ => none
  | rounds + 1, column, behind =>
    let cur := behind.token
    if cur.isAtEnd then some (.null, cur)
    else if cur.line == behind.line then node? rounds (column + 1) false cur
    else if column < cur.column then node? rounds (column + 1) true cur
    else if cur.column == column && cur.hasSign '-' then items? rounds column true [] cur
    else some (.null, cur)

/-- The entries of a mapping at a column behind those that are read already. -/
def entries? : Nat → (column : Nat) → Keyed Datum → Cursor → Read
  | 0, _, _, _ => none
  | rounds + 1, column, done, cur =>
    let cur := cur.token
    if cur.isAtEnd || cur.column < column then some (.mapping done, cur)
    else if column < cur.column || cur.hasSign '-' then none
    else do
      let (d, behind) ← inline? (column + 1) cur
      let behind := behind.token
      let key ← if behind.line == cur.line && behind.hasSign ':' then keyText? d else none
      let (value, behind) ← value? rounds column behind.next
      entries? rounds column (done.put key value) behind

/-- The items of a sequence at a column, those that are read already given in reverse. The sequence
can stand at the column of the mapping that it is a value of; then it ends with its last dash. -/
def items? : Nat → (column : Nat) → (inMapping : Bool) → List Datum → Cursor → Read
  | 0, _, _, _, _ => none
  | rounds + 1, column, inMapping, done, cur =>
    let cur := cur.token
    if cur.isAtEnd || cur.column < column then some (.list done.reverse, cur)
    else if cur.column == column && cur.hasSign '-' then do
      let (d, behind) ← item? rounds column cur.next
      items? rounds column inMapping (d :: done) behind
    else if cur.column == column && inMapping then some (.list done.reverse, cur)
    else none

/-- The item behind a dash at a column. Nothing there is null. -/
def item? : Nat → (column : Nat) → Cursor → Read
  | 0, _, _ => none
  | rounds + 1, column, behind =>
    let cur := behind.token
    if cur.isAtEnd then some (.null, cur)
    else if column < cur.column then node? rounds (column + 1) true cur
    else some (.null, cur)

end

/-! ## Documents -/

/-- Whether a character may stand in a text at all. -/
def isPrintable (c : Char) : Bool :=
  let code := c.toNat
  code == 9 || code == 10 || code == 13 || (32 ≤ code && code ≤ 126) || code == 0x85 ||
    (0xa0 ≤ code && code ≤ 0xfffd) || 0x10000 ≤ code

/-- A text with line feeds for its carriage returns. -/
def withLineFeeds : List Char → List Char
  | '\r' :: '\n' :: rest => '\n' :: withLineFeeds rest
  | '\r' :: rest => '\n' :: withLineFeeds rest
  | c :: rest => c :: withLineFeeds rest
  | [] => []

/-- What follows the last document of a text: nothing but end marks and comments. -/
def isFinished (cur : Cursor) : Bool :=
  let cur := cur.token
  cur.rest.isEmpty ||
    (cur.hasMark ['.', '.', '.'] && (cur.skip 3).token.rest.isEmpty)

/-- The document at a place; an empty one is null. -/
def document? (cur : Cursor) : Option Datum := do
  let start := cur.token
  let marked := start.hasMark ['-', '-', '-']
  let start := if marked then start.skip 3 else start
  let cur := start.token
  if cur.isAtEnd then
    guard (isFinished cur)
    return .null
  else
    guard !(cur.column == 0 && cur.rest.head? == some '%')
    let keyed := !marked || start.line != cur.line
    let (d, cur) ← node? (4 * cur.rest.length + 4) 0 keyed cur
    guard (isFinished cur)
    return d

/-- The data tree that a YAML text stands for. -/
def read? (text : String) : Option Datum :=
  let cs := withLineFeeds text.toList
  if !cs.all isPrintable then none
  else match cs with
    | '\ufeff' :: rest => document? ⟨rest, 0, 0⟩
    | cs => document? ⟨cs, 0, 0⟩

end Quarterly.Yaml
