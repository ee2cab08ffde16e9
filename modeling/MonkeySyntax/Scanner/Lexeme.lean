import MonkeySyntax.Scanner.CharClass
import MonkeySyntax.Token

/-!
# Lexemes

What the scanner reads at one place of the text, apart from where that place is. A lexeme has a
kind, a literal, and a width: the number of characters it takes up. The literal is the text of the
lexeme, except that a string leaves out its quotes; the closing quote is missing when the string
runs to the end of the text, and the width then counts it all the same, as nothing is left to be
passed.

The first character decides (`Lexeme.ofChars`): a letter begins a word, which goes on as long as it
can; a digit a number, which takes every digit and dot (whether it denotes a number is not decided
here); a double quote a string; `=` and `!` join with an `=` right after them; the other operators
and delimiters stand alone; and any other character is illegal.
-/

namespace MonkeySyntax.Scanner

/-- A piece of text that makes one token. -/
structure Lexeme where
  kind : TokenKind
  literal : List Char
  /-- The number of characters to pass. -/
  width : Nat
  deriving DecidableEq, Repr

namespace Lexeme

/-- A lexeme that is its own literal. -/
def plain (kind : TokenKind) (text : List Char) : Lexeme :=
  ⟨kind, text, text.length⟩

/-- A word: a keyword or an identifier. -/
def word (text : List Char) : Lexeme :=
  plain (TokenKind.ofWord (String.ofList text)) text

/-- The inside of a string, from behind its opening quote. -/
def stringBody (rest : List Char) : List Char :=
  rest.takeWhile (· ≠ '\x22')

/-- The lexeme at the start of a text that begins with the character `c`. -/
def ofChars (c : Char) (rest : List Char) : Lexeme :=
  if isLetter c then word (c :: rest.takeWhile isWordChar)
  else if isDigit c then plain .int (c :: rest.takeWhile isNumberChar)
  -- The operators of two characters come before those of one, so the longer wins.
  else if c = '=' ∧ rest.head? = some '=' then plain .equal [c, '=']
  else if c = '!' ∧ rest.head? = some '=' then plain .notEqual [c, '=']
  else match TokenKind.ofSymbol? c with
    | some kind => plain kind [c]
    | none =>
      -- Two more than the body: the quotes, of which the closing one may be missing.
      if c = '\x22' then ⟨.string, stringBody rest, (stringBody rest).length + 2⟩
      else plain .illegal [c]

@[simp] theorem kind_plain (kind : TokenKind) (text : List Char) : (plain kind text).kind = kind :=
  rfl

@[simp] theorem literal_plain (kind : TokenKind) (text : List Char) :
    (plain kind text).literal = text := rfl

@[simp] theorem width_plain (kind : TokenKind) (text : List Char) :
    (plain kind text).width = text.length := rfl

theorem width_pos (c : Char) (rest : List Char) : 0 < (ofChars c rest).width := by
  unfold ofChars
  split
  · simp [word]
  split
  · simp
  split
  · simp
  split
  · simp
  split
  · simp
  split <;> simp

theorem kind_ofChars_ne_eof (c : Char) (rest : List Char) : (ofChars c rest).kind ≠ .eof := by
  unfold ofChars
  split
  · exact TokenKind.ofWord_ne_eof _
  split
  · simp
  split
  · simp
  split
  · simp
  split
  · next kind hk =>
    rintro rfl
    exact TokenKind.ofSymbol?_ne_eof c hk
  split <;> simp

end Lexeme

end MonkeySyntax.Scanner
