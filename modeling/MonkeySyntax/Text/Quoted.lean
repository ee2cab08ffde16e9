import MonkeySyntax.Text.Hex
import MonkeySyntax.Text.Printable

/-!
# Quoted texts

How listings show a text on one line: between two quote marks, with everything that could be
mistaken for something else escaped. The mark is the apostrophe, unless the text holds apostrophes
and no double quotes; then it is the double quote. A backslash and the mark itself are preceded by a
backslash; tab, line feed and carriage return have letters (`\t`, `\n`, `\r`); any other character
that is not printable is named by its code point, in the shortest of the forms `\xNN`, `\uNNNN` and
`\UNNNNNNNN` that holds it. Every other character stands for itself.
-/

namespace MonkeySyntax.Text

def apostrophe : Char := '\x27'

def doubleQuote : Char := '\x22'

def backslash : Char := '\x5c'

/-- The mark that a text is quoted with. -/
def quoteMark (cs : List Char) : Char :=
  if apostrophe ∈ cs ∧ doubleQuote ∉ cs then doubleQuote else apostrophe

/-- A character that is not printable, named by its code point. -/
def codePointEscape (c : Char) : List Char :=
  if c.toNat < 0x100 then backslash :: 'x' :: hex 2 c.toNat
  else if c.toNat < 0x10000 then backslash :: 'u' :: hex 4 c.toNat
  else backslash :: 'U' :: hex 8 c.toNat

/-- One character of a text that is quoted with `mark`. -/
def quotedChar (mark c : Char) : List Char :=
  if c = mark ∨ c = backslash then [backslash, c]
  -- None of these three is printable, nor is any other control.
  else if c = '\t' then [backslash, 't']
  else if c = '\n' then [backslash, 'n']
  else if c = '\r' then [backslash, 'r']
  else if isPrintable c then [c]
  else codePointEscape c

/-- The characters of the quoted form of a text. -/
def quotedList (cs : List Char) : List Char :=
  quoteMark cs :: cs.flatMap (quotedChar (quoteMark cs)) ++ [quoteMark cs]

/-- The quoted form of a text. -/
def quoted (s : String) : String :=
  String.ofList (quotedList s.toList)

@[simp] theorem toList_quoted (s : String) : (quoted s).toList = quotedList s.toList :=
  String.toList_ofList

end MonkeySyntax.Text
