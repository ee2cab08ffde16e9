import Mathlib.Data.List.Basic
import MonkeySyntax.Parser.State

/-!
# What a parser has ahead

A parser holds two tokens and a stream. What it will see is one list: the two tokens in view and
those of the stream, up to and including the first end token. This list is `Parser.upcoming`, and
`Parser.ahead` is the same list without the end token. Statements about the parser speak of these
lists, and never of the stream:

* `Parser.upcoming_of_ne_eof` — before the end, a move takes the current token off the list;
* `Parser.Genuine.upcoming_advance_of_eof` — at the end, a move leaves the list as it is.

The second law needs that the two tokens in view do come from one stream. That is what
`Parser.Genuine` says. A parser made from a stream is genuine, and all moves keep it so.
-/

namespace MonkeySyntax

namespace TokenStream

variable {σ : Type} [TokenStream σ] [LawfulTokenStream σ]

/-- The list of a stream ends with its only end token. -/
theorem exists_toList_eq (s : σ) :
    ∃ ts e, toList s = ts ++ [e] ∧ e.kind = .eof ∧ ∀ t ∈ ts, t.kind ≠ .eof := by
  induction hn : size s using Nat.strongRecOn generalizing s with
  | _ n ih =>
    by_cases h : (next s).1.kind = .eof
    · exact ⟨[], (next s).1, by rw [toList_of_eof h]; rfl, h, by simp⟩
    · subst hn
      obtain ⟨ts, e, hl, he, hts⟩ := ih _ (LawfulTokenStream.size_next_lt s h) _ rfl
      refine ⟨(next s).1 :: ts, e, ?_, he, ?_⟩
      · rw [toList_of_ne_eof h, hl, List.cons_append]
      · simpa using ⟨h, hts⟩

/-- A token that another one follows is not the end token. -/
theorem kind_ne_eof_of_toList_eq {s : σ} {ts us : List Token} {t u : Token}
    (h : toList s = ts ++ u :: us) (ht : t ∈ ts) : t.kind ≠ .eof := by
  obtain ⟨vs, e, hvs, -, hne⟩ := exists_toList_eq s
  have hlast := congrArg List.dropLast (hvs.symm.trans h)
  rw [List.dropLast_concat, List.dropLast_append_cons] at hlast
  exact hne t (hlast ▸ List.mem_append_left _ ht)

/-- The end token is the last one and no other. -/
theorem kind_ne_eof_iff {s : σ} {k : Nat} {t : Token} (h : (toList s)[k]? = some t) :
    t.kind ≠ .eof ↔ k + 1 < (toList s).length := by
  obtain ⟨ts, e, hts, heof, hne⟩ := exists_toList_eq s
  have hk := (List.getElem?_eq_some_iff.1 h).1
  rw [hts, List.length_append, List.length_singleton] at hk ⊢
  rw [hts] at h
  constructor
  · intro ht
    by_contra hlast
    obtain rfl : k = ts.length := by omega
    rw [List.getElem?_concat_length] at h
    exact ht (Option.some.inj h ▸ heof)
  · intro hlt
    rw [List.getElem?_append_left (Nat.lt_of_succ_lt_succ hlt)] at h
    exact hne t (List.mem_of_getElem? h)

theorem length_toList_le (s : σ) : (toList s).length ≤ size s + 1 := by
  induction hn : size s using Nat.strongRecOn generalizing s with
  | _ n ih =>
    subst hn
    by_cases h : (next s).1.kind = .eof
    · simp [toList_of_eof h]
    · have hlt := LawfulTokenStream.size_next_lt s h
      have hle := ih _ hlt _ rfl
      rw [toList_of_ne_eof h, List.length_cons]
      omega

end TokenStream

namespace Parser

open TokenStream (next toList)

variable {σ : Type} [TokenStream σ]

/-- The tokens from the current one up to and including the end token. -/
def upcoming (p : Parser σ) : List Token :=
  if p.current.kind = .eof then [p.current]
  else if p.peek.kind = .eof then [p.current, p.peek]
  else p.current :: p.peek :: toList p.stream

/-- The tokens from the current one up to the end, without the end token. -/
def ahead (p : Parser σ) : List Token :=
  p.upcoming.dropLast

/-- The two tokens in view are the first two of some stream, and the parser's stream is what follows
them. -/
def Genuine (p : Parser σ) : Prop :=
  ∃ s : σ, p.current = (next s).1 ∧ p.peek = (next (next s).2).1 ∧ p.stream = (next (next s).2).2

theorem genuine_ofStream (s : σ) : (ofStream s).Genuine :=
  ⟨s, rfl, rfl, rfl⟩

theorem Genuine.advance {p : Parser σ} (h : p.Genuine) : p.advance.Genuine := by
  obtain ⟨s, -, hp, hs⟩ := h
  refine ⟨(next s).2, hp, ?_, ?_⟩
  · rw [peek_advance, hs]
  · rw [stream_advance, hs]

/-! ### Moves that leave the window alone -/

section Frame

variable (p : Parser σ) (d : Diagnostic)

@[simp] theorem upcoming_report : (p.report d).upcoming = p.upcoming := rfl

@[simp] theorem upcoming_drop : p.drop.upcoming = p.upcoming := rfl

@[simp] theorem upcoming_closeBlock : p.closeBlock.upcoming = p.upcoming := by
  simp [upcoming]

@[simp] theorem upcoming_advance_report : (p.report d).advance.upcoming = p.advance.upcoming := rfl

@[simp] theorem upcoming_advance_drop : p.drop.advance.upcoming = p.advance.upcoming := rfl

@[simp] theorem upcoming_advance_closeBlock :
    p.closeBlock.advance.upcoming = p.advance.upcoming := by
  unfold closeBlock
  split <;> rfl

@[simp] theorem ahead_report : (p.report d).ahead = p.ahead := rfl

@[simp] theorem ahead_drop : p.drop.ahead = p.ahead := rfl

@[simp] theorem ahead_closeBlock : p.closeBlock.ahead = p.ahead := by
  simp [ahead]

@[simp] theorem ahead_advance_closeBlock : p.closeBlock.advance.ahead = p.advance.ahead := by
  simp [ahead]

@[simp] theorem genuine_report : (p.report d).Genuine ↔ p.Genuine := Iff.rfl

@[simp] theorem genuine_drop : p.drop.Genuine ↔ p.Genuine := Iff.rfl

@[simp] theorem genuine_closeBlock : p.closeBlock.Genuine ↔ p.Genuine := by
  simp [Genuine]

end Frame

/-! ### The list and the moves -/

variable {p : Parser σ}

theorem upcoming_of_eof (h : p.current.kind = .eof) : p.upcoming = [p.current] := by
  rw [upcoming, if_pos h]

theorem upcoming_ne_nil (p : Parser σ) : p.upcoming ≠ [] := by
  unfold upcoming
  split
  · simp
  · split <;> simp

theorem head?_upcoming (p : Parser σ) : p.upcoming.head? = some p.current := by
  unfold upcoming
  split
  · rfl
  · split <;> rfl

theorem current_of_upcoming {t : Token} {ts : List Token} (h : p.upcoming = t :: ts) :
    p.current = t := by
  have := p.head?_upcoming
  rw [h] at this
  exact (Option.some.inj this).symm

variable [LawfulTokenStream σ]

/-- **A move before the end** takes the current token off the list. -/
theorem upcoming_of_ne_eof (h : p.current.kind ≠ .eof) :
    p.upcoming = p.current :: p.advance.upcoming := by
  rw [upcoming, if_neg h, upcoming, current_advance, peek_advance, stream_advance]
  by_cases hp : p.peek.kind = .eof
  · rw [if_pos hp, if_pos hp]
  · rw [if_neg hp, if_neg hp]
    -- The token that comes into view is the first of the stream, and may be the end token.
    by_cases hn : (next p.stream).1.kind = .eof
    · rw [if_pos hn, TokenStream.toList_of_eof hn]
    · rw [if_neg hn, TokenStream.toList_of_ne_eof hn]

/-- **A move at the end** leaves the list as it is. -/
theorem Genuine.upcoming_advance_of_eof (hg : p.Genuine) (h : p.current.kind = .eof) :
    p.advance.upcoming = p.upcoming := by
  obtain ⟨s, hc, hp, -⟩ := hg
  -- The end token comes again and again, so the one in view behind it is the same.
  have hs : (next s).1.kind = .eof := hc ▸ h
  have hpc : p.peek = p.current := by
    rw [hp, hc, LawfulTokenStream.next_next_of_eof s hs]
  rw [upcoming_of_eof h, upcoming_of_eof (by rw [current_advance, hpc, h]), current_advance, hpc]

/-- A move never brings anything back into view. -/
theorem Genuine.upcoming_advance_suffix (hg : p.Genuine) : p.advance.upcoming <:+ p.upcoming := by
  by_cases h : p.current.kind = .eof
  · have hsame := hg.upcoming_advance_of_eof h
    exact hsame ▸ List.suffix_rfl
  · rw [upcoming_of_ne_eof h]
    exact List.suffix_cons _ _

theorem Genuine.kind_advance_of_eof (hg : p.Genuine) (h : p.current.kind = .eof) :
    p.advance.current.kind = .eof := by
  have hu := hg.upcoming_advance_of_eof h
  rw [upcoming_of_eof h] at hu
  rw [current_of_upcoming hu, h]

/-- What follows a token of the list that is not the last one. -/
theorem upcoming_advance_of_cons {t u : Token} {ts : List Token} (h : p.upcoming = t :: u :: ts) :
    p.advance.upcoming = u :: ts := by
  have hne : p.current.kind ≠ .eof := by
    intro he
    rw [upcoming_of_eof he] at h
    simp at h
  rw [upcoming_of_ne_eof hne] at h
  exact (List.cons.inj h).2

/-! ### Without the end token -/

omit [LawfulTokenStream σ] in
theorem ahead_of_eof (h : p.current.kind = .eof) : p.ahead = [] := by
  rw [ahead, upcoming_of_eof h]
  rfl

theorem ahead_of_ne_eof (h : p.current.kind ≠ .eof) : p.ahead = p.current :: p.advance.ahead := by
  rw [ahead, upcoming_of_ne_eof h, List.dropLast_cons_of_ne_nil p.advance.upcoming_ne_nil, ahead]

theorem ahead_eq_nil_iff : p.ahead = [] ↔ p.current.kind = .eof := by
  by_cases h : p.current.kind = .eof
  · simp [ahead_of_eof h, h]
  · simp [ahead_of_ne_eof h, h]

theorem Genuine.ahead_advance (hg : p.Genuine) : p.advance.ahead = p.ahead.tail := by
  by_cases h : p.current.kind = .eof
  · rw [ahead, hg.upcoming_advance_of_eof h, ← ahead, ahead_of_eof h]
    rfl
  · rw [ahead_of_ne_eof h]
    rfl

/-- The current token, from what is ahead. -/
theorem current_of_ahead {t : Token} {ts : List Token} (h : p.ahead = t :: ts) :
    p.current = t ∧ t.kind ≠ .eof ∧ p.advance.ahead = ts := by
  have hne : p.current.kind ≠ .eof := by
    intro he
    rw [ahead_of_eof he] at h
    simp at h
  rw [ahead_of_ne_eof hne] at h
  obtain ⟨rfl, rfl⟩ := List.cons.inj h
  exact ⟨rfl, hne, rfl⟩

omit [LawfulTokenStream σ] in
theorem length_upcoming (p : Parser σ) : p.upcoming.length = p.ahead.length + 1 := by
  have := List.length_pos_iff.2 p.upcoming_ne_nil
  rw [ahead, List.length_dropLast]
  omega

theorem upcoming_ofStream (s : σ) : (ofStream s).upcoming = toList s := by
  change (if (next s).1.kind = .eof then [(next s).1]
    else if (next (next s).2).1.kind = .eof then [(next s).1, (next (next s).2).1]
    else (next s).1 :: (next (next s).2).1 :: toList (next (next s).2).2) = toList s
  by_cases h : (next s).1.kind = .eof
  · rw [if_pos h, TokenStream.toList_of_eof h]
  · rw [if_neg h, TokenStream.toList_of_ne_eof h]
    by_cases h' : (next (next s).2).1.kind = .eof
    · rw [if_pos h', TokenStream.toList_of_eof h']
    · rw [if_neg h', TokenStream.toList_of_ne_eof h']

/-- The fuel that a parser asks for is more than the tokens it has ahead. -/
theorem length_upcoming_le_fuel (p : Parser σ) : p.upcoming.length ≤ p.fuel := by
  have := TokenStream.length_toList_le p.stream
  unfold upcoming fuel
  split
  · simp
  · split
    · simp
    · simp only [List.length_cons]
      omega

end Parser

end MonkeySyntax
