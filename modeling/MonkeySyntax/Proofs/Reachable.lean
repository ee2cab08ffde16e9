import MonkeySyntax.Proofs.Parallel
import MonkeySyntax.Proofs.Place

/-!
# Parsers along a run

All that an action can do to a parser is to move on, to report, to count a statement as dropped and
to remember a brace. A parser that comes from the start of a stream by such steps is
`Parser.Reachable`. As every rule of the grammar is built from such steps, it leaves a reachable
parser reachable, whether it is done or rejects the text (`Parse.expression_moves`,
`Parse.statements_moves`). So wherever a run on the stream calls a rule, it calls it on a reachable
parser.

A reachable parser knows where it stands: its index counts the tokens of the stream that it has
passed (`Parser.Reachable.upcoming_eq`). And the block it has finished last does not lie ahead
(`Parser.Reachable.abreast`).
-/

namespace MonkeySyntax

open TokenStream (toList)

namespace Parser

variable {σ : Type} [TokenStream σ] {s : σ} {p : Parser σ}

/-- The parser comes from the start of the stream by the steps that actions are made of. -/
inductive Reachable (s : σ) : Parser σ → Prop where
  | start : Reachable s (ofStream s)
  | advance {p : Parser σ} : Reachable s p → Reachable s p.advance
  | report {p : Parser σ} (d : Diagnostic) : Reachable s p → Reachable s (p.report d)
  | drop {p : Parser σ} : Reachable s p → Reachable s p.drop
  | closeBlock {p : Parser σ} : Reachable s p → Reachable s p.closeBlock

theorem kept_reachable : Kept (Reachable s) :=
  ⟨fun _ h => h.advance, fun _ d h => h.report d, fun _ h => h.drop, fun _ h => h.closeBlock⟩

/-- No move makes the index smaller. -/
theorem kept_le_index (k : Nat) : Kept fun p : Parser σ => k ≤ p.index where
  advance _ h := Nat.le_succ_of_le h
  report _ _ h := h
  drop _ h := h
  closeBlock p h := by rwa [p.index_closeBlock]

theorem Reachable.genuine (h : p.Reachable s) : p.Genuine := by
  induction h with
  | start => exact genuine_ofStream s
  | advance _ ih => exact ih.advance
  | report d _ ih => exact ih
  | drop _ ih => exact ih
  | closeBlock _ ih => exact (genuine_closeBlock _).2 ih

theorem Reachable.abreast (h : p.Reachable s) : p.Abreast := by
  induction h with
  | start =>
    intro i t hc
    cases hc
  | advance _ ih => exact ih.advance.abreast
  | report d _ ih => exact ih
  | drop _ ih => exact ih
  | @closeBlock p _ ih =>
    intro i t hc
    rw [closed_closeBlock] at hc
    rw [index_closeBlock]
    split at hc
    · obtain ⟨rfl, -⟩ := Prod.mk.inj (Option.some.inj hc)
      exact Nat.le_refl _
    · exact ih i t hc

variable [LawfulTokenStream σ]

/-- **The index says where the parser stands**, as long as it is not at the end. -/
theorem Reachable.upcoming_eq (h : p.Reachable s) (hk : p.current.kind ≠ .eof) :
    p.upcoming = (toList s).drop p.index := by
  induction h with
  | start => exact upcoming_ofStream s
  | @advance p hp ih =>
    -- The parser was not at the end before, since the end is never left.
    have hne : p.current.kind ≠ .eof := fun he => hk (hp.genuine.kind_advance_of_eof he)
    have hcons := ih hne
    rw [upcoming_of_ne_eof hne] at hcons
    rw [index_advance, ← List.drop_drop, ← hcons]
    rfl
  | report d _ ih => exact ih hk
  | drop _ ih => exact ih hk
  | @closeBlock p _ ih =>
    rw [upcoming_closeBlock, index_closeBlock]
    exact ih (by simpa using hk)

/-- What a reachable parser has behind its current token. -/
theorem Reachable.upcoming_advance_eq (h : p.Reachable s) (hk : p.current.kind ≠ .eof) :
    p.advance.upcoming = (toList s).drop (p.index + 1) := by
  have hcons := h.upcoming_eq hk
  rw [upcoming_of_ne_eof hk] at hcons
  exact (congrArg List.tail hcons).trans List.tail_drop

theorem Reachable.getElem?_index (h : p.Reachable s) (hk : p.current.kind ≠ .eof) :
    (toList s)[p.index]? = some p.current := by
  rw [← List.head?_drop, ← h.upcoming_eq hk]
  exact p.head?_upcoming

/-- A reachable parser stands on the token that its index counts to. -/
theorem Reachable.current_eq (h : p.Reachable s) {t : Token} (ht : (toList s)[p.index]? = some t) :
    p.current = t := by
  induction h generalizing t with
  | start =>
    have hhead := (ofStream s).head?_upcoming
    rw [upcoming_ofStream, List.head?_eq_getElem?] at hhead
    exact Option.some.inj (hhead.symm.trans ht)
  | @advance p hp ih =>
    have hlt : p.index + 1 < (toList s).length := (List.getElem?_eq_some_iff.1 ht).1
    -- A token stands behind the one that the parser comes from, so that is not the end token.
    obtain ⟨u, hu⟩ : ∃ u, (toList s)[p.index]? = some u :=
      ⟨_, List.getElem?_eq_getElem (Nat.lt_of_succ_lt hlt)⟩
    have hne : p.current.kind ≠ .eof := ih hu ▸ (TokenStream.kind_ne_eof_iff hu).2 hlt
    have hhead := p.advance.head?_upcoming
    rw [hp.upcoming_advance_eq hne, List.head?_drop] at hhead
    exact Option.some.inj (hhead.symm.trans ht)
  | report d _ ih => exact ih ht
  | drop _ ih => exact ih ht
  | closeBlock _ ih =>
    rw [index_closeBlock] at ht
    rw [current_closeBlock]
    exact ih ht

theorem Reachable.suffix (h : p.Reachable s) : p.upcoming <:+ toList s := by
  induction h with
  | start => exact upcoming_ofStream s ▸ List.suffix_rfl
  | advance hp ih => exact hp.genuine.upcoming_advance_suffix.trans ih
  | report d _ ih => exact ih
  | drop _ ih => exact ih
  | closeBlock _ ih => simpa using ih

/-- Past an index, a reachable parser stands on a token that comes later. -/
theorem Reachable.current_mem_drop (h : p.Reachable s) {i : Nat} (hi : i < p.index)
    (hlt : i + 1 < (toList s).length) : p.current ∈ (toList s).drop (i + 1) := by
  by_cases hk : p.current.kind = .eof
  · obtain ⟨ts, hts⟩ := h.suffix
    rw [upcoming_of_eof hk] at hts
    rw [← hts, List.length_append, List.length_singleton] at hlt
    rw [← hts, List.drop_append_of_le_length (by omega)]
    exact List.mem_append_right _ (List.mem_singleton_self _)
  · have hget : ((toList s).drop (i + 1))[p.index - (i + 1)]? = some p.current := by
      rw [List.getElem?_drop, ← h.getElem?_index hk]
      congr 1
      omega
    exact List.mem_of_getElem? hget

/-- A parser at the end of its stream has passed all tokens but the last. -/
theorem Reachable.length_le_of_eof (h : p.Reachable s) (hk : p.current.kind = .eof) :
    (toList s).length ≤ p.index + 1 := by
  by_contra hlt
  have hget : (toList s)[p.index]? = some (toList s)[p.index] :=
    List.getElem?_eq_getElem (by omega)
  -- The token at this index is followed by another one, but it is the current token.
  have hne := (TokenStream.kind_ne_eof_iff hget).2 (by omega)
  exact hne (h.current_eq hget ▸ hk)

/-- **Where a parser stands**: on the token that its index counts to, or on the last one. -/
theorem Reachable.getElem?_min (h : p.Reachable s) :
    (toList s)[min p.index ((toList s).length - 1)]? = some p.current := by
  by_cases hk : p.current.kind = .eof
  · have hle := h.length_le_of_eof hk
    obtain ⟨ts, hts⟩ := h.suffix
    rw [upcoming_of_eof hk] at hts
    rw [Nat.min_eq_right (by omega), ← hts, List.length_append, List.length_singleton,
      Nat.add_sub_cancel, List.getElem?_concat_length]
  · have hget := h.getElem?_index hk
    have hlt := (List.getElem?_eq_some_iff.1 hget).1
    rw [Nat.min_eq_left (by omega), hget]

end Parser

namespace Parse

/-- From a reachable parser the action comes to a reachable one. -/
def Moves {σ α : Type} [TokenStream σ] (s : σ) (m : Parse σ α) : Prop :=
  ∀ p : Parser σ, p.Reachable s →
    (m.run p).Meets True (fun _ q => q.Reachable s) fun q => q.Reachable s

variable {σ α : Type} [TokenStream σ] {s : σ}

theorem Built.moves {i : Bool} {b c : Stage} {m : Parse σ α} (h : Built i b c m) :
    Moves s m := fun _ hp => h.keeps Parser.kept_reachable hp

/-- **Expressions** leave a reachable parser reachable, however deeply they are nested. -/
theorem expression_moves (N floor : Nat) : Moves s (expression N floor) :=
  (expression_built N true floor).moves

/-- **A statement** leaves a reachable parser reachable, also where it is rejected. -/
theorem statement_moves (N : Nat) : Moves s (statement (expression N)) := by
  have hbuilt : Built false .fresh .settled (statement (expression (σ := σ) N)) :=
    (statement_parallel (expression_self N)).built_left
  exact hbuilt.moves

/-- **Statements** leave a reachable parser reachable, also where one of them is dropped. -/
theorem statements_moves (N fuel : Nat) (ends : TokenKind → Bool) :
    Moves s (statements (expression N) fuel ends) :=
  (statements_built N fuel ends).moves

end Parse

end MonkeySyntax
