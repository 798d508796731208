import Quarterly.Json.Reader
import Quarterly.Yaml.Cursor

/-!
# The text of scalars

A scalar can run over several lines. A single line end inside it counts as a space, and each
further one as a line end, except in literal blocks, which keep all of them. Scalars come without
quotes, in single or double quotes, or as an indented block.

The recursive rules count rounds down; every round consumes a character, so the characters that
are left are enough of them.
-/

namespace Quarterly.Yaml

open Cursor

/-- The line ends that are left when lines are joined: a single plain one becomes a space. -/
def joined (first : Char) (more : List Char) : List Char :=
  if first != '\n' then first :: more else if more.isEmpty then [' '] else more

/-! ## Without quotes -/

/-- Whether a colon ends a scalar that it stands in, by what follows the colon. -/
def colonEnds (inFlow : Bool) (rest : List Char) : Bool :=
  endsWord rest || (inFlow && rest.head?.any [',', '[', ']', '\x7b', '\x7d'].contains)

/-- The longest run of characters of a scalar without quotes. -/
def plainRun (inFlow : Bool) : List Char → List Char
  | [] => []
  | c :: rest =>
    if isSeparator c || (c == ':' && colonEnds inFlow rest) ||
        (inFlow && [',', '?', '[', ']', '\x7b', '\x7d'].contains c) then []
    else c :: plainRun inFlow rest

/-- Whether a scalar without quotes can start here. -/
def startsPlain (inFlow : Bool) : List Char → Bool
  | [] => false
  | c :: rest =>
    if isSeparator c then false
    else if c == '-' then !endsWord rest
    else if c == '?' || c == ':' then !inFlow && !endsWord rest
    else !(([',', '[', ']', '\x7b', '\x7d', '#', '&', '*', '!', '|', '>', '\'', '"', '%', '@',
      '\x60'] : List Char).contains c)

/-- The line ends and spaces at the start of lines, and whether a document ends among them. -/
def emptyLines (cur : Cursor) : Nat → List Char × Cursor × Bool
  | 0 => ([], cur, false)
  | rounds + 1 =>
    match cur.rest with
    | ' ' :: _ => emptyLines cur.next rounds
    | c :: _ =>
      if isBreak c then
        if cur.next.isBetweenDocuments then ([c], cur.next, true)
        else
          let (more, cur, ended) := emptyLines cur.next rounds
          (c :: more, cur, ended)
      else ([], cur, false)
    | [] => ([], cur, false)

/-- What stands between two runs of a scalar: spaces, or line ends that are joined. Nothing, if the
document ends there. -/
def plainGap (cur : Cursor) : List Char × Cursor :=
  let spaces := cur.rest.takeWhile (· == ' ')
  let cur := cur.skip spaces.length
  match cur.rest with
  | c :: _ =>
    if isBreak c then
      if cur.next.isBetweenDocuments then ([], cur.next)
      else
        let (more, cur, ended) := emptyLines cur.next cur.rest.length
        (if ended then [] else joined c more, cur)
    else (spaces, cur)
  | [] => (spaces, cur)

/-- The runs of a scalar without quotes. Its further lines have to start at a column of their own,
unless it stands inside brackets. -/
def plainRuns (inFlow : Bool) (column : Nat) (gap : List Char) (cur : Cursor) :
    Nat → List Char × Cursor
  | 0 => ([], cur)
  | rounds + 1 =>
    let run := plainRun inFlow cur.rest
    if run.isEmpty || cur.rest.head? == some '#' then ([], cur)
    else
      let (nextGap, cur) := plainGap (cur.skip run.length)
      if nextGap.isEmpty || (!inFlow && cur.column < column) then (gap ++ run, cur)
      else
        let (more, cur) := plainRuns inFlow column nextGap cur rounds
        (gap ++ run ++ more, cur)

/-- A scalar without quotes. -/
def plainText (inFlow : Bool) (column : Nat) (cur : Cursor) : List Char × Cursor :=
  plainRuns inFlow column [] cur (cur.rest.length + 1)

/-! ## In quotes -/

/-- The line ends and blanks at the start of lines inside quotes; none if a document ends among
them. -/
def quotedEmptyLines? (cur : Cursor) : Nat → Option (List Char × Cursor)
  | 0 => some ([], cur)
  | rounds + 1 =>
    if cur.isBetweenDocuments then none
    else
      let cur := cur.skipWhile fun c => c == ' ' || c == '\t'
      match cur.rest with
      | c :: _ =>
        if isBreak c then do
          let (more, cur) ← quotedEmptyLines? cur.next rounds
          return (c :: more, cur)
        else some ([], cur)
      | [] => some ([], cur)

/-- Blanks inside quotes: kept within a line, joined at line ends. -/
def quotedGap? (cur : Cursor) : Option (List Char × Cursor) :=
  let blanks := cur.rest.takeWhile fun c => c == ' ' || c == '\t'
  let cur := cur.skip blanks.length
  match cur.rest with
  | [] => none
  | c :: _ =>
    if isBreak c then do
      let (more, cur) ← quotedEmptyLines? cur.next cur.rest.length
      return (joined c more, cur)
    else some (blanks, cur)

/-- The rest of a scalar in single quotes; two of them stand for one. -/
def singleQuoted? (cur : Cursor) : Nat → Option (List Char × Cursor)
  | 0 => none
  | rounds + 1 =>
    match cur.rest with
    | [] => none
    | '\'' :: '\'' :: _ => do
      let (more, cur) ← singleQuoted? (cur.skip 2) rounds
      return ('\'' :: more, cur)
    | '\'' :: _ => some ([], cur.next)
    | c :: _ =>
      if isSeparator c then do
        let (gap, cur) ← quotedGap? cur
        let (more, cur) ← singleQuoted? cur rounds
        return (gap ++ more, cur)
      else do
        let (more, cur) ← singleQuoted? cur.next rounds
        return (c :: more, cur)

/-- The characters that have an escape of one letter. -/
def escapes : List (Char × Char) := [
  ('0', '\x00'), ('a', '\x07'), ('b', '\x08'), ('t', '\t'), ('n', '\n'), ('v', '\x0b'),
  ('f', '\x0c'), ('r', '\r'), ('e', '\x1b'), ('"', '"'), ('\\', '\\'), ('N', '\x85'),
  ('_', '\xa0'), ('L', '\u2028'), ('P', '\u2029')]

/-- The letters that are read as escapes but never written. -/
def furtherEscapes : List (Char × Char) := [('\t', '\t'), (' ', ' '), ('/', '/')]

/-- How many hexadecimal digits follow a letter. -/
def codeLength? : Char → Option Nat
  | 'x' => some 2
  | 'u' => some 4
  | 'U' => some 8
  | _ => none

/-- The number in a given number of hexadecimal digits. -/
def hexNumber? (length : Nat) (cs : List Char) : Option Nat := do
  let digits ← (cs.take length).mapM Json.hexValue?
  guard (digits.length = length)
  return digits.foldl (fun n d => 16 * n + d) 0

/-- The rest of a scalar in double quotes, with escapes. An escaped line end joins two lines
without a space. -/
def doubleQuoted? (cur : Cursor) : Nat → Option (List Char × Cursor)
  | 0 => none
  | rounds + 1 =>
    match cur.rest with
    | [] => none
    | '"' :: _ => some ([], cur.next)
    | '\\' :: letter :: rest =>
      if isBreak letter then do
        let (lines, cur) ← quotedEmptyLines? (cur.skip 2) rest.length
        let (more, cur) ← doubleQuoted? cur rounds
        return (lines ++ more, cur)
      else match (escapes ++ furtherEscapes).lookup letter, codeLength? letter with
        | some c, _ => do
          let (more, cur) ← doubleQuoted? (cur.skip 2) rounds
          return (c :: more, cur)
        | none, some length => do
          let code ← hexNumber? length rest
          let (more, cur) ← doubleQuoted? (cur.skip (2 + length)) rounds
          return (Char.ofNat code :: more, cur)
        | none, none => none
    | c :: _ =>
      if isSeparator c then do
        let (gap, cur) ← quotedGap? cur
        let (more, cur) ← doubleQuoted? cur rounds
        return (gap ++ more, cur)
      else do
        let (more, cur) ← doubleQuoted? cur.next rounds
        return (c :: more, cur)

/-! ## As a block -/

/-- What becomes of the line ends that end a block. -/
inductive Chomping where
  /-- One is kept. -/
  | clip
  | strip
  | keep
  deriving Repr, DecidableEq

/-- The head of a block: how it ends, and by how many columns it is indented if that is given. -/
def blockHead? (cs : List Char) : Option (Chomping × Option Nat × Nat) :=
  let chomping? : Char → Option Chomping
    | '+' => some .keep
    | '-' => some .strip
    | _ => none
  let digit? (c : Char) : Option Nat := if '1' ≤ c ∧ c ≤ '9' then some (c.toNat - 48) else none
  match cs.takeWhile fun c => !isSeparator c with
  | [] => some (.clip, none, 0)
  | [a] =>
    ((chomping? a).map fun chomping => (chomping, none, 1)).or
      ((digit? a).map fun indent => (.clip, some indent, 1))
  | [a, b] =>
    (do return (← chomping? a, some (← digit? b), 2)).or
      (do return (← chomping? b, some (← digit? a), 2))
  | _ => none

/-- The line ends before a block with the greatest column that their spaces reach. -/
def blockMargin (cur : Cursor) (reached : Nat) : Nat → List Char × Nat × Cursor
  | 0 => ([], reached, cur)
  | rounds + 1 =>
    match cur.rest with
    | ' ' :: _ => blockMargin cur.next (max reached cur.next.column) rounds
    | c :: _ =>
      if isBreak c then
        let (more, reached, cur) := blockMargin cur.next reached rounds
        (c :: more, reached, cur)
      else ([], reached, cur)
    | [] => ([], reached, cur)

/-- Spaces up to a column. -/
def spacesTo (cur : Cursor) (column : Nat) : Cursor :=
  cur.skip (((cur.rest.takeWhile (· == ' ')).take (column - cur.column)).length)

/-- The empty lines in a block that is indented to a column. -/
def blockEmptyLines (column : Nat) (cur : Cursor) : Nat → List Char × Cursor
  | 0 => ([], cur)
  | rounds + 1 =>
    let cur := spacesTo cur column
    match cur.rest with
    | c :: _ =>
      if isBreak c then
        let (more, cur) := blockEmptyLines column cur.next rounds
        (c :: more, cur)
      else ([], cur)
    | [] => ([], cur)

def startsBlank (cs : List Char) : Bool := cs.head?.any fun c => c == ' ' || c == '\t'

/-- The lines of a block, the empty ones before the first given. The results are the text, the last
line end, and the empty lines behind it. -/
def blockLines (folded : Bool) (column : Nat) (empty : List Char) (cur : Cursor) :
    Nat → List Char × List Char × List Char × Cursor
  | 0 => ([], [], empty, cur)
  | rounds + 1 =>
    if cur.column != column || cur.rest.isEmpty then ([], [], empty, cur)
    else
      let line := cur.rest.takeWhile (!isBreak ·)
      let behind := cur.skip line.length
      let lineEnd := behind.rest.take 1
      let (nextEmpty, after) := blockEmptyLines column behind.next behind.rest.length
      if after.column != column || after.rest.isEmpty then
        (empty ++ line, lineEnd, nextEmpty, after)
      else
        let isJoined := folded && lineEnd == ['\n'] && !startsBlank line && !startsBlank after.rest
        let gap := if !isJoined then lineEnd else if nextEmpty.isEmpty then [' '] else []
        let (more, lastEnd, lastEmpty, cur) := blockLines folded column nextEmpty after rounds
        (empty ++ line ++ gap ++ more, lastEnd, lastEmpty, cur)

/-- A block behind its mark. `outer` is the least column that its lines can have. -/
def blockText? (folded : Bool) (outer : Nat) (cur : Cursor) : Option (List Char × Cursor) := do
  let (chomping, given, length) ← blockHead? cur.rest
  let cur := (cur.skip length).skipWhile (· == ' ')
  let cur := if cur.rest.head? == some '#' then cur.skipWhile (!isBreak ·) else cur
  guard (cur.rest.head?.all isBreak)
  let cur := cur.next
  let least := max outer 1
  let (empty, column, cur) := match given with
    | some indent =>
      let column := least + indent - 1
      let (empty, cur) := blockEmptyLines column cur (cur.rest.length + 1)
      (empty, column, cur)
    | none =>
      let (empty, reached, cur) := blockMargin cur 0 (cur.rest.length + 1)
      (empty, max least reached, cur)
  let (text, lastEnd, lastEmpty, cur) := blockLines folded column empty cur (cur.rest.length + 1)
  let tail := match chomping with
    | .strip => []
    | .clip => lastEnd
    | .keep => lastEnd ++ lastEmpty
  return (text ++ tail, cur)

end Quarterly.Yaml
