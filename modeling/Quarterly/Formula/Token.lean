import Quarterly.Text.Blank
import Quarterly.Text.Digit

/-!
# Tokens

A formula is read as a row of tokens that ends with an end mark. Reading never fails: whitespace
and characters that start no token are passed over, and a quote without its partner runs to the
end of the formula. Positions count characters from the start of the formula.
-/

namespace Quarterly.Formula

inductive TokenKind where
  | function
  | identifier
  | number
  | string
  | operator
  | leftParen
  | rightParen
  | leftBracket
  | rightBracket
  | leftBrace
  | rightBrace
  | comma
  | endMark
  deriving Repr, DecidableEq

structure Token where
  kind : TokenKind
  /-- The characters of the token; a string is without its quotes, a function name in capitals. -/
  text : String
  /-- Where the token starts in the formula. -/
  position : Nat
  deriving Repr, DecidableEq

/-- A token at the start of a text, together with the number of characters it takes up behind
its first one. -/
structure Lexeme where
  kind : TokenKind
  text : String
  extra : Nat
  deriving Repr, DecidableEq

namespace Lexeme

/-- The kind of a character that is a token by itself and no operator. -/
def punctuation? : Char → Option TokenKind
  | '(' => some .leftParen
  | ')' => some .rightParen
  | '[' => some .leftBracket
  | ']' => some .rightBracket
  | '\x7b' => some .leftBrace
  | '\x7d' => some .rightBrace
  | ',' => some .comma
  | _ => none

/-- Whether two characters form one operator. -/
def isDoubleOperator (c d : Char) : Bool :=
  (c == '>' && d == '=') || (c == '<' && (d == '=' || d == '>')) || (c == '!' && d == '=')

/-- Whether a character is an operator by itself. -/
def isOperator (c : Char) : Bool := ['+', '-', '*', '/', '%', '>', '<', '=', '!'].contains c

/-- Whether a character can start a word. Words are ASCII. -/
def isWordStart (c : Char) : Bool := c.isAlpha || c == '_'

/-- Whether a character can stand inside a word. -/
def isWordPart (c : Char) : Bool := c.isAlphanum || c == '_'

/-- The characters of a numeral behind its first one: digits with at most one point among them,
where the first character may have been that point. -/
def numeralRest (first : Char) (rest : List Char) : List Char :=
  let digits := rest.takeWhile Text.isDigit
  if first == '.' then digits
  else match rest.dropWhile Text.isDigit with
    | '.' :: more => digits ++ '.' :: more.takeWhile Text.isDigit
    | _ => digits

/-- Whether a character starts a numeral: a digit, or a point with a digit behind it. -/
def startsNumeral (c : Char) (rest : List Char) : Bool :=
  Text.isDigit c || (c == '.' && rest.head?.any Text.isDigit)

/-- The lexeme that starts with the character `c`, before `rest`, if one does. -/
def at? (isFunction : String → Bool) (c : Char) (rest : List Char) : Option Lexeme :=
  if Text.isBlank c then none
  else match punctuation? c with
  | some kind => some ⟨kind, c.toString, 0⟩
  | none =>
    if rest.head?.any (isDoubleOperator c) then
      some ⟨.operator, String.ofList (c :: rest.take 1), 1⟩
    else if isOperator c then some ⟨.operator, c.toString, 0⟩
    else if c == '"' || c == '\'' then
      let body := rest.takeWhile (· != c)
      some ⟨.string, String.ofList body, min (body.length + 1) rest.length⟩
    else if startsNumeral c rest then
      let more := numeralRest c rest
      some ⟨.number, String.ofList (c :: more), more.length⟩
    else if isWordStart c then
      let more := rest.takeWhile isWordPart
      let word := String.ofList (c :: more)
      let capitals := word.map Char.toUpper
      if isFunction capitals then some ⟨.function, capitals, more.length⟩
      else some ⟨.identifier, word, more.length⟩
    else none

end Lexeme

namespace Token

/-- The tokens of a text whose first character stands at `position`. -/
def scan (isFunction : String → Bool) (position : Nat) : List Char → List Token
  | [] => [⟨.endMark, "", position⟩]
  | c :: rest =>
    match Lexeme.at? isFunction c rest with
    | none => scan isFunction (position + 1) rest
    | some lexeme =>
      ⟨lexeme.kind, lexeme.text, position⟩ ::
        scan isFunction (position + 1 + lexeme.extra) (rest.drop lexeme.extra)
  termination_by cs => cs.length
  decreasing_by all_goals simp_wf; try omega

end Token

/-- Read a formula as tokens; `isFunction` tells, for a word in capitals, whether it names a
function. -/
def tokenize (isFunction : String → Bool) (formula : String) : List Token :=
  Token.scan isFunction 0 formula.toList

end Quarterly.Formula
