/-!
# Cursors

A cursor stands in front of one character of a source text, or at its end. It knows what is still
ahead of it, how many characters it has passed, where it goes next, and the line and column where it
stands. It never moves backwards: every operation of the scanner moves it by a number of single
steps `advance`, so whatever one step keeps, all operations keep. At the end of the text a step
changes nothing.
-/

namespace MonkeySyntax.Scanner

/-- A place in a source text. -/
structure Cursor where
  /-- The characters from the cursor to the end of the text. -/
  rest : List Char
  /-- The character ahead, if the text does not end here. -/
  current? : Option Char
  /-- The number of characters passed. -/
  position : Nat
  /-- The position that the next step leads to. -/
  nextPosition : Nat
  /-- The line of the character ahead, counted from one. -/
  line : Nat
  /-- The column of the character ahead, counted from one. -/
  column : Nat
  deriving DecidableEq, Repr

namespace Cursor

/-- The cursor at the start of a text. -/
def ofString (source : String) : Cursor :=
  { rest := source.toList
    current? := source.toList.head?
    position := 0
    nextPosition := 1
    line := 1
    column := 1 }

@[simp] theorem rest_ofString (source : String) : (ofString source).rest = source.toList := rfl

/-- The character at the next position, if the text goes on to it. -/
def lookahead? (c : Cursor) : Option Char :=
  c.rest[c.nextPosition - c.position]?

/-- Nothing is left. -/
def atEnd (c : Cursor) : Bool :=
  c.rest.isEmpty

/-- One step: pass the character ahead. A line feed ends its line. -/
def advance (c : Cursor) : Cursor :=
  match c.rest with
  | [] => c
  | ch :: rest =>
    { rest
      current? := rest.head?
      position := c.nextPosition
      nextPosition := c.nextPosition + 1
      line := if ch = '\n' then c.line + 1 else c.line
      column := if ch = '\n' then 1 else c.column + 1 }

/-- `n` steps. -/
def advanceBy : Nat → Cursor → Cursor
  | 0, c => c
  | n + 1, c => advanceBy n c.advance

theorem advance_of_rest_nil {c : Cursor} (h : c.rest = []) : c.advance = c := by
  simp [advance, h]

@[simp] theorem rest_advance (c : Cursor) : c.advance.rest = c.rest.tail := by
  unfold advance
  cases h : c.rest <;> simp [h]

@[simp] theorem advanceBy_zero (c : Cursor) : c.advanceBy 0 = c := rfl

theorem advanceBy_succ (n : Nat) (c : Cursor) : c.advanceBy (n + 1) = c.advance.advanceBy n := rfl

@[simp] theorem rest_advanceBy (n : Nat) (c : Cursor) : (c.advanceBy n).rest = c.rest.drop n := by
  induction n generalizing c with
  | zero => rfl
  | succ n ih => rw [advanceBy_succ, ih, rest_advance, List.drop_tail]

theorem advanceBy_of_rest_nil {c : Cursor} (h : c.rest = []) (n : Nat) : c.advanceBy n = c := by
  induction n with
  | zero => rfl
  | succ n ih => rw [advanceBy_succ, advance_of_rest_nil h, ih]

theorem advanceBy_add (m n : Nat) (c : Cursor) :
    c.advanceBy (m + n) = (c.advanceBy m).advanceBy n := by
  induction m generalizing c with
  | zero => simp
  | succ m ih => rw [Nat.succ_add, advanceBy_succ, ih, advanceBy_succ]

/-- The longest run of characters ahead that satisfy `p`. -/
def run (p : Char → Bool) (c : Cursor) : List Char :=
  c.rest.takeWhile p

/-- Pass the longest run of characters that satisfy `p`. -/
def skipWhile (p : Char → Bool) (c : Cursor) : Cursor :=
  c.advanceBy (c.run p).length

@[simp] theorem rest_skipWhile (p : Char → Bool) (c : Cursor) :
    (c.skipWhile p).rest = c.rest.dropWhile p := by
  rw [skipWhile, rest_advanceBy, run]
  induction c.rest with
  | nil => rfl
  | cons ch rest ih => by_cases h : p ch <;> simp [h, ih]

/-- Read the longest run of characters that satisfy `p`: its text, and the cursor behind it. -/
def readWhile (p : Char → Bool) (c : Cursor) : String × Cursor :=
  (String.ofList (c.run p), c.skipWhile p)

end Cursor

end MonkeySyntax.Scanner
