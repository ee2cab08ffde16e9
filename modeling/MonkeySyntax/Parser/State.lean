import MonkeySyntax.Parser.Diagnostic
import MonkeySyntax.TokenStream

/-!
# The state of a parser

A parser looks at two tokens of a stream, the *current* one and the one after it (*peek*); the rest
of the stream has not been read. Its state also knows the index of the current token, the brace that
closed the block finished last, the diagnostics so far, and how many statements have been dropped.

The parser moves by `advance` alone, which shifts the window by one token. At the end of the stream
the window stays on end tokens, and the index goes on counting.
-/

namespace MonkeySyntax

/-- A parser that reads from a stream. -/
structure Parser (σ : Type) where
  /-- The token under examination. -/
  current : Token
  /-- The token after it. -/
  peek : Token
  /-- What follows. -/
  stream : σ
  /-- The index of the current token among all tokens of the stream, counted from zero. -/
  index : Nat := 0
  /-- The brace that ended the block finished last, with its index. -/
  closed : Option (Nat × Token) := none
  /-- The diagnostics, in the order in which they were made. -/
  diagnostics : List Diagnostic := []
  /-- The number of statements that were given up. -/
  dropped : Nat := 0

namespace Parser

variable {σ : Type} [TokenStream σ]

/-- The parser at the start of a stream. -/
def ofStream (s : σ) : Parser σ :=
  let first := TokenStream.next s
  let second := TokenStream.next first.2
  { current := first.1, peek := second.1, stream := second.2 }

/-- Move on by one token. -/
def advance (p : Parser σ) : Parser σ :=
  let next := TokenStream.next p.stream
  { p with current := p.peek, peek := next.1, stream := next.2, index := p.index + 1 }

omit [TokenStream σ] in
/-- Add a diagnostic. -/
def report (p : Parser σ) (d : Diagnostic) : Parser σ :=
  { p with diagnostics := p.diagnostics ++ [d] }

omit [TokenStream σ] in
/-- Count a statement that was given up. -/
def drop (p : Parser σ) : Parser σ :=
  { p with dropped := p.dropped + 1 }

omit [TokenStream σ] in
/-- Remember the current token as the brace that ended a block, if it is a closing brace. -/
def closeBlock (p : Parser σ) : Parser σ :=
  if p.current.kind = .rightBrace then { p with closed := some (p.index, p.current) } else p

omit [TokenStream σ] in
/-- The current token is the very one that ended the block finished last. -/
def onClosed (p : Parser σ) : Bool :=
  match p.closed with
  | some (index, _) => index == p.index
  | none => false

/-- A bound on the tokens before the end that the parser has still to pass, with room for one more:
each of the two tokens in view, and those of the stream. -/
def fuel (p : Parser σ) : Nat :=
  -- Two for the tokens in view, and one so that a loop has room to stop.
  TokenStream.size p.stream + 3

/-! ### What the moves change -/

@[simp] theorem current_advance (p : Parser σ) : p.advance.current = p.peek := rfl

@[simp] theorem peek_advance (p : Parser σ) : p.advance.peek = (TokenStream.next p.stream).1 := rfl

@[simp] theorem stream_advance (p : Parser σ) :
    p.advance.stream = (TokenStream.next p.stream).2 := rfl

@[simp] theorem index_advance (p : Parser σ) : p.advance.index = p.index + 1 := rfl

@[simp] theorem closed_advance (p : Parser σ) : p.advance.closed = p.closed := rfl

@[simp] theorem diagnostics_advance (p : Parser σ) : p.advance.diagnostics = p.diagnostics := rfl

@[simp] theorem dropped_advance (p : Parser σ) : p.advance.dropped = p.dropped := rfl

omit [TokenStream σ]

@[simp] theorem current_report (p : Parser σ) (d : Diagnostic) :
    (p.report d).current = p.current := rfl

@[simp] theorem peek_report (p : Parser σ) (d : Diagnostic) : (p.report d).peek = p.peek := rfl

@[simp] theorem stream_report (p : Parser σ) (d : Diagnostic) :
    (p.report d).stream = p.stream := rfl

@[simp] theorem index_report (p : Parser σ) (d : Diagnostic) : (p.report d).index = p.index := rfl

@[simp] theorem closed_report (p : Parser σ) (d : Diagnostic) :
    (p.report d).closed = p.closed := rfl

@[simp] theorem diagnostics_report (p : Parser σ) (d : Diagnostic) :
    (p.report d).diagnostics = p.diagnostics ++ [d] := rfl

@[simp] theorem dropped_report (p : Parser σ) (d : Diagnostic) :
    (p.report d).dropped = p.dropped := rfl

@[simp] theorem current_drop (p : Parser σ) : p.drop.current = p.current := rfl

@[simp] theorem peek_drop (p : Parser σ) : p.drop.peek = p.peek := rfl

@[simp] theorem stream_drop (p : Parser σ) : p.drop.stream = p.stream := rfl

@[simp] theorem index_drop (p : Parser σ) : p.drop.index = p.index := rfl

@[simp] theorem closed_drop (p : Parser σ) : p.drop.closed = p.closed := rfl

@[simp] theorem diagnostics_drop (p : Parser σ) : p.drop.diagnostics = p.diagnostics := rfl

@[simp] theorem dropped_drop (p : Parser σ) : p.drop.dropped = p.dropped + 1 := rfl

@[simp] theorem current_closeBlock (p : Parser σ) : p.closeBlock.current = p.current := by
  unfold closeBlock
  split <;> rfl

@[simp] theorem peek_closeBlock (p : Parser σ) : p.closeBlock.peek = p.peek := by
  unfold closeBlock
  split <;> rfl

@[simp] theorem stream_closeBlock (p : Parser σ) : p.closeBlock.stream = p.stream := by
  unfold closeBlock
  split <;> rfl

@[simp] theorem index_closeBlock (p : Parser σ) : p.closeBlock.index = p.index := by
  unfold closeBlock
  split <;> rfl

@[simp] theorem diagnostics_closeBlock (p : Parser σ) :
    p.closeBlock.diagnostics = p.diagnostics := by
  unfold closeBlock
  split <;> rfl

@[simp] theorem dropped_closeBlock (p : Parser σ) : p.closeBlock.dropped = p.dropped := by
  unfold closeBlock
  split <;> rfl

theorem closed_closeBlock (p : Parser σ) :
    p.closeBlock.closed =
      if p.current.kind = .rightBrace then some (p.index, p.current) else p.closed := by
  unfold closeBlock
  split <;> rfl

theorem onClosed_eq_true_iff (p : Parser σ) :
    p.onClosed = true ↔ ∃ t, p.closed = some (p.index, t) := by
  unfold onClosed
  split
  · next index t h => simp [h]
  · next h => simp [h]

end Parser

end MonkeySyntax
