/-!
# Character classes of the scanner

Words are made of letters, the underscore and digits; numbers of digits and dots. Letters and digits
are the ASCII ones. Four characters separate tokens and are otherwise ignored.

The classes of letters and digits extend to whole texts by their place in the order of texts: a text
counts as a letter when it lies between `a` and `z` or between `A` and `Z`, both included, or is the
underscore (so `ab` does and `zz` does not), and as a digit when it lies between `0` and `9`. On
one-character texts the extension agrees with the class of the character.
-/

namespace MonkeySyntax.Scanner

/-- An ASCII letter or the underscore. -/
def isLetter (c : Char) : Bool :=
  ('a' ≤ c && c ≤ 'z') || ('A' ≤ c && c ≤ 'Z') || c == '_'

/-- An ASCII digit. -/
def isDigit (c : Char) : Bool :=
  '0' ≤ c && c ≤ '9'

/-- A character of a word after its first. -/
def isWordChar (c : Char) : Bool :=
  isLetter c || isDigit c

/-- A character of a number after its first. -/
def isNumberChar (c : Char) : Bool :=
  isDigit c || c == '.'

/-- A character that separates tokens: space, tab, line feed or carriage return. -/
def isSpace (c : Char) : Bool :=
  c == ' ' || c == '\t' || c == '\n' || c == '\r'

/-- The text lies between the two others in the order of texts, or is one of them. -/
def liesBetween (low high s : String) : Bool :=
  !decide (s < low) && !decide (high < s)

/-- The class of letters, extended to texts. -/
def isLetterText (s : String) : Bool :=
  liesBetween "a" "z" s || liesBetween "A" "Z" s || s == "_"

/-- The class of digits, extended to texts. -/
def isDigitText (s : String) : Bool :=
  liesBetween "0" "9" s

end MonkeySyntax.Scanner
