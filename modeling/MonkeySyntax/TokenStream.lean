import MonkeySyntax.Token

/-!
# Streams of tokens

The parser takes tokens one at a time from a stream and does not care where they come from: from a
cursor that scans a text as it goes, or from a list that has been scanned before. A stream ends with
an end token, and goes on to yield that same token for ever after. `size` bounds the number of
tokens before the end; every other token makes it smaller, which is what all loops over a stream
rest on.
-/

namespace MonkeySyntax

/-- A supply of tokens. -/
class TokenStream (σ : Type) where
  /-- The next token, and the stream behind it. -/
  next : σ → Token × σ
  /-- A bound on the number of tokens before the end. -/
  size : σ → Nat

/-- The two laws of streams: a token before the end makes the stream smaller, and the end token
comes again and again. -/
class LawfulTokenStream (σ : Type) [TokenStream σ] : Prop where
  size_next_lt (s : σ) :
    (TokenStream.next s).1.kind ≠ .eof →
      TokenStream.size (TokenStream.next s).2 < TokenStream.size s
  next_next_of_eof (s : σ) :
    (TokenStream.next s).1.kind = .eof →
      TokenStream.next (TokenStream.next s).2 = TokenStream.next s

namespace TokenStream

variable {σ : Type} [TokenStream σ]

/-- At most `n` tokens, up to and including the first end token, with the stream behind them. -/
def takeUpTo : (n : Nat) → σ → List Token × σ
  | 0, s => ([], s)
  | n + 1, s =>
    if (next s).1.kind = .eof then ([(next s).1], (next s).2)
    else ((next s).1 :: (takeUpTo n (next s).2).1, (takeUpTo n (next s).2).2)

/-- All tokens of the stream, up to and including the first end token, with what is left then. -/
def drain (s : σ) : List Token × σ :=
  takeUpTo (size s + 1) s

/-- All tokens of the stream, up to and including the first end token. -/
def toList (s : σ) : List Token :=
  (drain s).1

/-- The token with the given index, counted from zero; behind the end, the end token. -/
def token : (index : Nat) → σ → Token
  | 0, s => (next s).1
  | index + 1, s => token index (next s).2

@[simp] theorem token_zero (s : σ) : token 0 s = (next s).1 := rfl

@[simp] theorem token_succ (index : Nat) (s : σ) : token (index + 1) s = token index (next s).2 :=
  rfl

variable [LawfulTokenStream σ]

/-- More room than the stream needs changes nothing. -/
theorem takeUpTo_eq_of_size_lt {m n : Nat} {s : σ} (hm : size s < m) (hn : size s < n) :
    takeUpTo m s = takeUpTo n s := by
  induction m generalizing n s with
  | zero => omega
  | succ m ih =>
    cases n with
    | zero => omega
    | succ n =>
      simp only [takeUpTo]
      split
      · rfl
      · next h =>
        -- Both runs have taken a token, so the stream is smaller than either's room still.
        have hlt := LawfulTokenStream.size_next_lt s h
        rw [ih (n := n) (by omega) (by omega)]

/-- **Draining token by token.** The end token is the last one; any other is followed by the tokens
of the stream behind it. -/
theorem drain_eq (s : σ) :
    drain s =
      if (next s).1.kind = .eof then ([(next s).1], (next s).2)
      else ((next s).1 :: (drain (next s).2).1, (drain (next s).2).2) := by
  rw [drain, takeUpTo]
  split
  · rfl
  · next h =>
    have hlt := LawfulTokenStream.size_next_lt s h
    rw [drain, takeUpTo_eq_of_size_lt hlt (Nat.lt_succ_self _)]

theorem toList_of_eof {s : σ} (h : (next s).1.kind = .eof) : toList s = [(next s).1] := by
  rw [toList, drain_eq, if_pos h]

theorem toList_of_ne_eof {s : σ} (h : (next s).1.kind ≠ .eof) :
    toList s = (next s).1 :: toList (next s).2 := by
  rw [toList, drain_eq, if_neg h]
  rfl

end TokenStream

/-- Tokens that are there already: `tokens`, then `last` for ever. The last token ends the list, and
so does an end token in it. -/
structure TokenList where
  tokens : List Token
  last : Token
  last_kind : last.kind = .eof
  deriving Repr

namespace TokenList

/-- The first token and what follows it. -/
def next (s : TokenList) : Token × TokenList :=
  match s.tokens with
  | [] => (s.last, s)
  | t :: ts => if t.kind = .eof then (t, s) else (t, { s with tokens := ts })

instance : TokenStream TokenList where
  next := next
  size s := s.tokens.length

instance : LawfulTokenStream TokenList where
  size_next_lt s h := by
    obtain ⟨tokens, last, hl⟩ := s
    cases tokens with
    | nil => exact absurd hl h
    | cons t ts =>
      simp only [TokenStream.next, TokenStream.size, next] at h ⊢
      split at h <;> simp_all
  next_next_of_eof s h := by
    obtain ⟨tokens, last, hl⟩ := s
    cases tokens with
    | nil => rfl
    | cons t ts =>
      simp only [TokenStream.next, next] at h ⊢
      split at h <;> simp_all

end TokenList

end MonkeySyntax
