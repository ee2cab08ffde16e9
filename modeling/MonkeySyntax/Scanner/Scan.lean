import MonkeySyntax.Scanner.Cursor
import MonkeySyntax.Scanner.Lexeme
import MonkeySyntax.TokenStream

/-!
# Scanning

A cursor yields a token at a time: it skips the spaces ahead, reads the lexeme it then stands at,
and marks it with the line and column where it begins. Scanning never fails and never stops short:
where nothing is left, the end token is yielded as often as asked, always at the same place. So a
cursor is a stream of tokens, and a text has finitely many (`tokenize`).

The readers of words, numbers and strings may be called wherever the cursor stands. The first two
read the longest run of their characters, which may be empty; the reader of strings passes one
character first, whatever it is.
-/

namespace MonkeySyntax.Scanner.Cursor

/-- Pass the spaces ahead. -/
def skipSpaces (c : Cursor) : Cursor :=
  c.skipWhile isSpace

/-- Read letters, underscores and digits. -/
def readWord (c : Cursor) : String × Cursor :=
  c.readWhile isWordChar

/-- Read digits and dots. -/
def readNumber (c : Cursor) : String × Cursor :=
  c.readWhile isNumberChar

/-- Pass one character, whatever it is, and read up to the next double quote or the end. -/
def readString (c : Cursor) : String × Cursor :=
  c.advance.readWhile (· ≠ '\x22')

/-- The token that begins exactly here, and the cursor behind it. -/
def tokenHere (c : Cursor) : Token × Cursor :=
  match c.rest with
  | [] => (⟨.eof, "", c.line, c.column⟩, c)
  | ch :: rest =>
    let lexeme := Lexeme.ofChars ch rest
    (⟨lexeme.kind, String.ofList lexeme.literal, c.line, c.column⟩, c.advanceBy lexeme.width)

/-- The next token, and the cursor behind it. -/
def nextToken (c : Cursor) : Token × Cursor :=
  c.skipSpaces.tokenHere

theorem tokenHere_of_nil {c : Cursor} (h : c.rest = []) :
    c.tokenHere = (⟨.eof, "", c.line, c.column⟩, c) := by
  simp [tokenHere, h]

theorem tokenHere_of_cons {c : Cursor} {ch : Char} {rest : List Char} (h : c.rest = ch :: rest) :
    c.tokenHere =
      (⟨(Lexeme.ofChars ch rest).kind, String.ofList (Lexeme.ofChars ch rest).literal, c.line,
          c.column⟩,
        c.advanceBy (Lexeme.ofChars ch rest).width) := by
  simp [tokenHere, h]

/-- A token is the end token exactly where nothing is left. -/
theorem kind_tokenHere_eq_eof_iff (c : Cursor) : c.tokenHere.1.kind = .eof ↔ c.rest = [] := by
  cases h : c.rest with
  | nil => simp [tokenHere_of_nil h]
  | cons ch rest => simp [tokenHere_of_cons h, Lexeme.kind_ofChars_ne_eof]

theorem skipSpaces_of_nil {c : Cursor} (h : c.rest = []) : c.skipSpaces = c :=
  advanceBy_of_rest_nil h _

theorem length_rest_skipSpaces_le (c : Cursor) : c.skipSpaces.rest.length ≤ c.rest.length := by
  rw [skipSpaces, skipWhile, rest_advanceBy, List.length_drop]
  omega

theorem length_rest_nextToken_lt {c : Cursor} (h : c.nextToken.1.kind ≠ .eof) :
    c.nextToken.2.rest.length < c.rest.length := by
  have hle := c.length_rest_skipSpaces_le
  rw [nextToken] at h ⊢
  cases hr : c.skipSpaces.rest with
  | nil => exact absurd ((kind_tokenHere_eq_eof_iff _).2 hr) h
  | cons ch rest =>
    -- A lexeme takes up at least one of the characters that the spaces have left.
    have hw := Lexeme.width_pos ch rest
    rw [hr, List.length_cons] at hle
    rw [tokenHere_of_cons hr, rest_advanceBy, hr, List.length_drop, List.length_cons]
    omega

theorem nextToken_nextToken_of_eof {c : Cursor} (h : c.nextToken.1.kind = .eof) :
    c.nextToken.2.nextToken = c.nextToken := by
  -- Behind the spaces nothing is left, so the cursor stays there.
  have hr : c.skipSpaces.rest = [] := (kind_tokenHere_eq_eof_iff _).1 h
  have hn : c.nextToken.2 = c.skipSpaces := by rw [nextToken, tokenHere_of_nil hr]
  rw [hn, nextToken, skipSpaces_of_nil hr, ← nextToken]

instance : TokenStream Cursor where
  next := nextToken
  size c := c.rest.length

instance : LawfulTokenStream Cursor where
  size_next_lt _ := length_rest_nextToken_lt
  next_next_of_eof _ := nextToken_nextToken_of_eof

end MonkeySyntax.Scanner.Cursor

namespace MonkeySyntax

/-- The tokens of a text, the end token included. -/
def tokenize (source : String) : List Token :=
  TokenStream.toList (Scanner.Cursor.ofString source)

end MonkeySyntax
