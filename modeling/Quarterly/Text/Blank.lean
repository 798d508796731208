/-!
# Blank characters

Whitespace in the wide sense: the blanks and separators of Unicode together with the four
information separators and the control characters that end a line. Trimming cuts off whitespace
at both ends.
-/

namespace Quarterly.Text

/-- Whether a character is whitespace. -/
def isBlank (c : Char) : Bool :=
  let code := c.toNat
  (9 ≤ code && code ≤ 13) || (28 ≤ code && code ≤ 32) || code == 0x85 || code == 0xa0 ||
    code == 0x1680 || (0x2000 ≤ code && code ≤ 0x200a) || code == 0x2028 || code == 0x2029 ||
    code == 0x202f || code == 0x205f || code == 0x3000

/-- The characters without the whitespace at either end. -/
def trimChars (cs : List Char) : List Char :=
  ((cs.dropWhile isBlank).reverse.dropWhile isBlank).reverse

/-- A text without the whitespace at either end. -/
def trim (s : String) : String := String.ofList (trimChars s.toList)

/-- Whether a text has nothing but whitespace. -/
def isAllBlank (s : String) : Bool := s.toList.all isBlank

end Quarterly.Text
