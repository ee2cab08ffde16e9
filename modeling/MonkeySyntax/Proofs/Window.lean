import MonkeySyntax.Proofs.Counting
import MonkeySyntax.Proofs.Scanning

/-!
# The two tokens in view

A parser reads each token of a text once, and holds two of them. The rules of the grammar may be
called on it in any order and at any place, also where they were not meant to be called: on a token
that they do not begin with, with operands that come from elsewhere, or behind the end of the text.
None of this makes the window slip. The index of the current token only grows, the token behind it
is the next one of the text, and the cursor is where scanning the text leaves it behind these
(`Parser.Sees`).

That is so since there is only one way to move on. The other things that can happen to a parser do
not touch the window, and every request is made of such steps (`Parser.perform_keeps`).
-/

namespace MonkeySyntax

open MonkeySyntax.Scanner (Cursor)

open TokenStream (toList token next)

namespace TokenStream

variable {σ : Type} [TokenStream σ] [LawfulTokenStream σ]

/-- Behind the end, the end token comes again and again. -/
theorem token_of_eof {s : σ} (h : (next s).1.kind = .eof) (i : Nat) : token i s = (next s).1 := by
  induction i generalizing s with
  | zero => rfl
  | succ i ih =>
    -- The stream does not move on behind its end.
    have hagain : next (next s).2 = next s := LawfulTokenStream.next_next_of_eof s h
    have hkind : (next (next s).2).1.kind = .eof := by rw [hagain]; exact h
    rw [token_succ, ih hkind, hagain]

/-- The token with some index is the one that the list of all tokens has there, or its last one. -/
theorem getElem?_toList_min (i : Nat) (s : σ) :
    (toList s)[min i ((toList s).length - 1)]? = some (token i s) := by
  -- Both sides go through the stream together up to its end, where both stay.
  induction i generalizing s with
  | zero =>
    rw [Nat.zero_min]
    by_cases h : (next s).1.kind = .eof
    · rw [toList_of_eof h]
      rfl
    · rw [toList_of_ne_eof h]
      rfl
  | succ i ih =>
    by_cases h : (next s).1.kind = .eof
    · rw [toList_of_eof h, token_of_eof h]
      rfl
    · have hpos : 0 < (toList (next s).2).length := List.length_pos_iff.2 (toList_ne_nil _)
      have hmin : min (i + 1) ((toList (next s).2).length + 1 - 1)
          = min i ((toList (next s).2).length - 1) + 1 := by omega
      rw [toList_of_ne_eof h, List.length_cons, hmin, List.getElem?_cons_succ, ih, token_succ]

/-- A token before the end has its index in the list of all tokens. -/
theorem getElem?_toList_of_ne_eof {i : Nat} {s : σ} (h : (token i s).kind ≠ .eof) :
    (toList s)[i]? = some (token i s) := by
  have hmin := getElem?_toList_min i s
  have hlt := (kind_ne_eof_iff hmin).1 h
  rwa [show min i ((toList s).length - 1) = i by omega] at hmin

end TokenStream

namespace Scanner.Cursor

theorem afterTokens_succ (n : Nat) (c : Cursor) :
    c.afterTokens (n + 1) = (c.afterTokens n).nextToken.2 := by
  induction n generalizing c with
  | zero => rfl
  | succ n ih => exact ih c.nextToken.2

theorem token_eq_nextToken (n : Nat) (c : Cursor) : token n c = (c.afterTokens n).nextToken.1 := by
  induction n generalizing c with
  | zero => rfl
  | succ n ih => exact ih c.nextToken.2

end Scanner.Cursor

namespace Parser

/-- What a parser on a text has in view: the token that its index counts to and the one behind it,
with the end token coming again and again. The cursor stands behind the two, and the brace that
ended the block finished last is a closing brace of the text that does not lie ahead. -/
structure Sees (source : String) (p : Parser Cursor) : Prop where
  current_eq : p.current = token p.index (Cursor.ofString source)
  peek_eq : p.peek = token (p.index + 1) (Cursor.ofString source)
  stream_eq : p.stream = (Cursor.ofString source).afterTokens (p.index + 2)
  closed_eq : ∀ i t, p.closed = some (i, t) →
    i ≤ p.index ∧ t.kind = .rightBrace ∧ (tokenize source)[i]? = some t

variable {source : String} {p : Parser Cursor}

theorem sees_ofString (source : String) : (ofStream (Cursor.ofString source)).Sees source where
  current_eq := rfl
  peek_eq := rfl
  stream_eq := rfl
  closed_eq i t h := by cases h

theorem Sees.advance (h : p.Sees source) : p.advance.Sees source where
  current_eq := h.peek_eq
  peek_eq := by
    rw [peek_advance, h.stream_eq, index_advance]
    exact (Cursor.token_eq_nextToken (p.index + 2) _).symm
  stream_eq := by
    rw [stream_advance, h.stream_eq, index_advance]
    exact (Cursor.afterTokens_succ (p.index + 2) _).symm
  closed_eq i t hclosed := by
    obtain ⟨hle, hbrace⟩ := h.closed_eq i t hclosed
    exact ⟨Nat.le_succ_of_le hle, hbrace⟩

theorem Sees.report (h : p.Sees source) (d : Diagnostic) : (p.report d).Sees source :=
  ⟨h.current_eq, h.peek_eq, h.stream_eq, h.closed_eq⟩

theorem Sees.drop (h : p.Sees source) : p.drop.Sees source :=
  ⟨h.current_eq, h.peek_eq, h.stream_eq, h.closed_eq⟩

theorem Sees.closeBlock (h : p.Sees source) : p.closeBlock.Sees source where
  current_eq := by simpa using h.current_eq
  peek_eq := by simpa using h.peek_eq
  stream_eq := by simpa using h.stream_eq
  closed_eq i t hclosed := by
    rw [closed_closeBlock] at hclosed
    rw [index_closeBlock]
    split at hclosed
    · next hbrace =>
      -- The brace is the current token; it is not the end token, so it has its place in the list.
      obtain ⟨rfl, rfl⟩ := Prod.mk.inj (Option.some.inj hclosed)
      refine ⟨Nat.le_refl _, hbrace, ?_⟩
      rw [h.current_eq] at hbrace ⊢
      exact TokenStream.getElem?_toList_of_ne_eof (by rw [hbrace]; decide)
    · exact h.closed_eq i t hclosed

theorem kept_sees (source : String) : Kept (Sees source) :=
  ⟨fun _ h => h.advance, fun _ d h => h.report d, fun _ h => h.drop, fun _ h => h.closeBlock⟩

theorem performAll_concat {σ : Type} [TokenStream σ] (p : Parser σ) (requests : List Request)
    (request : Request) :
    p.performAll (requests ++ [request]) = ((p.performAll requests).perform request).2 := by
  rw [Parser.performAll, List.foldl_concat, ← Parser.performAll]

end Parser

/-- **The two tokens in view never slip.** Let the tokens of a text go on for ever, with the end
token coming again and again. Whatever has been asked of a parser on the text, in any order, the
current token is the one with the parser's index and the other is the one behind it, the cursor
stands where scanning leaves it behind these, and the brace that ended the block finished last is a
closing brace of the text that is not ahead. Whatever is asked next, the index does not get smaller
and the diagnostics made so far remain the first ones. -/
theorem two_tokens_in_view (source : String) :
    (∀ i, (tokenize source)[min i ((tokenize source).length - 1)]? =
        some (token i (Cursor.ofString source))) ∧
      ∀ requests : List Parser.Request,
        ((Parser.ofStream (Cursor.ofString source)).performAll requests).Sees source ∧
        ∀ request : Parser.Request,
          ((Parser.ofStream (Cursor.ofString source)).performAll requests).index ≤
            ((Parser.ofStream (Cursor.ofString source)).performAll
              (requests ++ [request])).index ∧
          ((Parser.ofStream (Cursor.ofString source)).performAll requests).diagnostics <+:
            ((Parser.ofStream (Cursor.ofString source)).performAll
              (requests ++ [request])).diagnostics := by
  refine ⟨fun i => TokenStream.getElem?_toList_min i _, fun requests => ?_⟩
  refine ⟨Parser.performAll_keeps (Parser.kept_sees source) (Parser.sees_ofString source) requests,
    fun request => ?_⟩
  rw [Parser.performAll_concat]
  exact ⟨Parser.perform_keeps (Parser.kept_le_index _) (Nat.le_refl _) request,
    Parser.perform_keeps (Parser.kept_prefix_diagnostics _) List.prefix_rfl request⟩

end MonkeySyntax
