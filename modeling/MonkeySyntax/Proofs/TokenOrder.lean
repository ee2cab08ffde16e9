import Mathlib.Data.List.Nodup
import MonkeySyntax.Proofs.Scanning

/-!
# Tokens stand in the order of the text

Each token of a text stands behind the one before it: on a later line, or further on in the same
line. So no two tokens of a text are the same (`tokenize_nodup`), and a token can be found again by
its place alone (`eq_of_mem_tokenize`).
-/

namespace MonkeySyntax

open TokenStream (toList)

/-- The first token stands before the second one. -/
def Token.Before (s t : Token) : Prop :=
  s.line < t.line ∨ s.line = t.line ∧ s.col < t.col

theorem Token.Before.ne {s t : Token} (h : s.Before t) : s ≠ t := by
  rintro rfl
  rcases h with h | ⟨-, h⟩
  · exact absurd h (Int.lt_irrefl _)
  · exact absurd h (Int.lt_irrefl _)

namespace Scanner.Cursor

/-- The token stands where the cursor does, or further on. -/
def Precedes (c : Cursor) (t : Token) : Prop :=
  (c.line : Int) < t.line ∨ (c.line : Int) = t.line ∧ (c.column : Int) ≤ t.col

variable {c : Cursor} {t : Token}

/-- What lies ahead after a step lies behind the place where the step began. -/
theorem Precedes.before_of_advance (h : c.advance.Precedes t) (hr : c.rest ≠ [])
    (kind : TokenKind) (literal : String) : Token.Before ⟨kind, literal, c.line, c.column⟩ t := by
  obtain ⟨ch, rest, hrest⟩ := List.exists_cons_of_ne_nil hr
  rw [Precedes, advance, hrest] at h
  change (c.line : Int) < t.line ∨ (c.line : Int) = t.line ∧ (c.column : Int) < t.col
  by_cases hch : ch = '\n'
  · -- The next line is a later one.
    simp only [if_pos hch] at h
    push_cast at h
    omega
  · simp only [if_neg hch] at h
    push_cast at h
    omega

theorem Precedes.of_advance (h : c.advance.Precedes t) : c.Precedes t := by
  by_cases hr : c.rest = []
  · rwa [advance_of_rest_nil hr] at h
  · rcases h.before_of_advance hr .eof "" with hline | ⟨hline, hcol⟩
    · exact .inl hline
    · exact .inr ⟨hline, Int.le_of_lt hcol⟩

theorem Precedes.of_advanceBy {n : Nat} (h : (c.advanceBy n).Precedes t) : c.Precedes t := by
  induction n generalizing c with
  | zero => exact h
  | succ n ih => exact (ih h).of_advance

theorem Precedes.of_skipSpaces (h : c.skipSpaces.Precedes t) : c.Precedes t :=
  h.of_advanceBy

/-- A token at the cursor stands before all that lies behind a lexeme there. -/
theorem Precedes.before_of_advanceBy {n : Nat} (hn : 0 < n) (hr : c.rest ≠ [])
    (h : (c.advanceBy n).Precedes t) (kind : TokenKind) (literal : String) :
    Token.Before ⟨kind, literal, c.line, c.column⟩ t := by
  cases n with
  | zero => exact absurd hn (Nat.lt_irrefl 0)
  | succ n =>
    have hstep : c.advance.Precedes t := Precedes.of_advanceBy h
    exact hstep.before_of_advance hr kind literal

theorem precedes_of_mem_toList (c : Cursor) : ∀ t ∈ toList c, c.Precedes t := by
  induction c using scan_induction with
  | atEnd c hr =>
    intro t ht
    rw [toList_of_nil hr, List.mem_singleton] at ht
    subst ht
    exact Precedes.of_skipSpaces (.inr ⟨rfl, Int.le_refl _⟩)
  | token c ch rest hr ih =>
    intro t ht
    rw [toList_of_cons hr] at ht
    rcases List.mem_cons.1 ht with rfl | ht
    · exact Precedes.of_skipSpaces (.inr ⟨rfl, Int.le_refl _⟩)
    · exact Precedes.of_skipSpaces (ih t ht).of_advanceBy

theorem pairwise_before_toList (c : Cursor) : (toList c).Pairwise Token.Before := by
  induction c using scan_induction with
  | atEnd c hr =>
    rw [toList_of_nil hr]
    exact List.pairwise_singleton _ _
  | token c ch rest hr ih =>
    rw [toList_of_cons hr, List.pairwise_cons]
    refine ⟨fun t ht => ?_, ih⟩
    have hne : c.skipSpaces.rest ≠ [] := by simp [hr]
    have hahead := precedes_of_mem_toList _ t ht
    exact hahead.before_of_advanceBy (Lexeme.width_pos ch rest) hne _ _

end Scanner.Cursor

/-- **The tokens of a text** stand one behind the other. -/
theorem tokenize_pairwise_before (source : String) : (tokenize source).Pairwise Token.Before :=
  Scanner.Cursor.pairwise_before_toList _

theorem tokenize_nodup (source : String) : (tokenize source).Nodup :=
  (tokenize_pairwise_before source).imp fun h => h.ne

/-- A token is the only one at its place. -/
theorem eq_of_mem_tokenize {source : String} {s t : Token} (hs : s ∈ tokenize source)
    (ht : t ∈ tokenize source) (hline : s.line = t.line) (hcol : s.col = t.col) : s = t := by
  have hplaces : ((tokenize source).map fun t => (t.line, t.col)).Nodup := by
    refine List.Pairwise.map _ (fun s t h heq => ?_) (tokenize_pairwise_before source)
    obtain ⟨hline, hcol⟩ := Prod.mk.injEq .. ▸ heq
    unfold Token.Before at h
    omega
  exact List.inj_on_of_nodup_map hplaces hs ht (Prod.ext hline hcol)

end MonkeySyntax
