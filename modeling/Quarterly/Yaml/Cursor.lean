/-!
# Places in a YAML text

A cursor stands before a character of a text and knows its line and column, since indentation and
line ends carry meaning. Text is read with its line ends made uniform, so that a carriage return
never occurs.
-/

namespace Quarterly.Yaml

/-- Whether a character ends a line. -/
def isBreak (c : Char) : Bool := c == '\n' || c == '\x85' || c == '\u2028' || c == '\u2029'

/-- Whether a character separates words: a space, a tab or the end of a line. -/
def isSeparator (c : Char) : Bool := c == ' ' || c == '\t' || isBreak c

/-- Whether a text is at its end or goes on with a separator. -/
def endsWord : List Char → Bool
  | [] => true
  | c :: _ => isSeparator c

/-- A place in a text. -/
structure Cursor where
  /-- What is still to be read. -/
  rest : List Char
  line : Nat := 0
  column : Nat := 0
  deriving Repr, DecidableEq

namespace Cursor

/-- The place behind the next character. -/
def next (cur : Cursor) : Cursor :=
  match cur.rest with
  | [] => cur
  | c :: rest =>
    if isBreak c then ⟨rest, cur.line + 1, 0⟩ else ⟨rest, cur.line, cur.column + 1⟩

/-- The place behind a number of characters. -/
def skip (cur : Cursor) : Nat → Cursor
  | 0 => cur
  | n + 1 => cur.next.skip n

/-- The place behind the characters of a kind that come next. -/
def skipWhile (cur : Cursor) (kind : Char → Bool) : Cursor :=
  cur.skip (cur.rest.takeWhile kind).length

/-- Whether a mark of three characters stands at the start of a line, alone or before a
separator. -/
def hasMark (cur : Cursor) (mark : List Char) : Bool :=
  cur.column == 0 && mark.isPrefixOf cur.rest && endsWord (cur.rest.drop mark.length)

/-- Whether a document starts or ends here. -/
def isBetweenDocuments (cur : Cursor) : Bool :=
  cur.hasMark ['-', '-', '-'] || cur.hasMark ['.', '.', '.']

/-- Whether a document has nothing more to read here. -/
def isAtEnd (cur : Cursor) : Bool := cur.rest.isEmpty || cur.isBetweenDocuments

/-- The place of the next token: behind spaces, comments and line ends. Each round passes at least
one line. -/
def toToken (cur : Cursor) : Nat → Cursor
  | 0 => cur
  | rounds + 1 =>
    let cur := cur.skipWhile (· == ' ')
    let cur := if cur.rest.head? == some '#' then cur.skipWhile (!isBreak ·) else cur
    match cur.rest with
    | [] => cur
    | c :: _ => if isBreak c then cur.next.toToken rounds else cur

/-- The place of the next token. -/
def token (cur : Cursor) : Cursor := cur.toToken (cur.rest.length + 1)

/-- Whether a sign and a separator come next. -/
def hasSign (cur : Cursor) (sign : Char) : Bool :=
  match cur.rest with
  | c :: rest => c == sign && endsWord rest
  | [] => false

end Cursor

end Quarterly.Yaml
