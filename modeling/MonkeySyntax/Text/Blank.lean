/-!
# Blank characters

The characters that Unicode treats as white space, together with the four information separators
(U+001C to U+001F). A line typed at the prompt is trimmed of them on both sides.
-/

namespace MonkeySyntax.Text

/-- White space in the sense of Unicode, the information separators included. -/
def isBlank (c : Char) : Bool :=
  let n := c.toNat
  (0x9 ≤ n && n ≤ 0xD) || (0x1C ≤ n && n ≤ 0x20) || n == 0x85 || n == 0xA0 || n == 0x1680 ||
    (0x2000 ≤ n && n ≤ 0x200A) || n == 0x2028 || n == 0x2029 || n == 0x202F || n == 0x205F ||
    n == 0x3000

/-- The characters without the ones satisfying `p` at either end. -/
def trimList (p : Char → Bool) (cs : List Char) : List Char :=
  ((cs.dropWhile p).reverse.dropWhile p).reverse

/-- The text without blank characters at either end. -/
def trim (s : String) : String :=
  String.ofList (trimList isBlank s.toList)

@[simp] theorem toList_trim (s : String) : (trim s).toList = trimList isBlank s.toList :=
  String.toList_ofList

end MonkeySyntax.Text
