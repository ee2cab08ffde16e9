import MonkeySyntax.Proofs.Braces
import MonkeySyntax.Proofs.Upcoming

/-!
# Places in a run

An action that begins at one parser leaves another behind, and a statement about the action says how
the two places are related. There are five relations, from a place `p` to a later place `q`:

* `Parser.EndsOn` — `q` stands **on the last token** of what was read from `p` on;
* `Parser.StopsAt` — `q` stands **on a token that could not be read**;
* `Parser.Skipping` and `Parser.Skipped` — while and after the rest of a rejected statement is
  skipped;
* `Parser.Between` — between the statements of a sequence.

All five keep one number, the stray closing braces among the tokens still to be read: it is what it
was at `p`. So what lies between the two places closes every group that it opens and no other. They
also keep track of the brace that ended the block finished last: it may be the current token only
where a rule has just ended on it (`Parser.Abreast`), and otherwise it lies behind
(`Parser.Behind`).
-/

namespace MonkeySyntax

namespace TokenKind

/-- Neither the end nor a brace. -/
def Plain (k : TokenKind) : Prop :=
  k ≠ .eof ∧ k ≠ .leftBrace ∧ k ≠ .rightBrace

instance (k : TokenKind) : Decidable k.Plain :=
  inferInstanceAs (Decidable (_ ∧ _ ∧ _))

end TokenKind

namespace Parser

variable {σ : Type}

/-! ### The block finished last -/

/-- The brace that ended the block finished last is the current token or behind it. -/
def Abreast (p : Parser σ) : Prop :=
  ∀ i t, p.closed = some (i, t) → i ≤ p.index

/-- The brace that ended the block finished last is behind the current token. -/
def Behind (p : Parser σ) : Prop :=
  ∀ i t, p.closed = some (i, t) → i < p.index

theorem Behind.abreast {p : Parser σ} (h : p.Behind) : p.Abreast :=
  fun i t hc => Nat.le_of_lt (h i t hc)

theorem Abreast.advance [TokenStream σ] {p : Parser σ} (h : p.Abreast) : p.advance.Behind :=
  fun i t hc => Nat.lt_succ_of_le (h i t hc)

theorem Behind.onClosed {p : Parser σ} (h : p.Behind) : p.onClosed = false := by
  cases ho : p.onClosed with
  | false => rfl
  | true =>
    obtain ⟨t, ht⟩ := (onClosed_eq_true_iff p).1 ho
    exact absurd (h _ t ht) (Nat.lt_irrefl _)

theorem Abreast.behind {p : Parser σ} (h : p.Abreast) (ho : p.onClosed = false) : p.Behind := by
  intro i t hc
  refine Nat.lt_of_le_of_ne (h i t hc) ?_
  rintro rfl
  -- If the brace were the current token, the parser would stand on it.
  rw [(onClosed_eq_true_iff p).2 ⟨t, hc⟩] at ho
  exact Bool.noConfusion ho

theorem Behind.abreast_closeBlock {p : Parser σ} (h : p.Behind) : p.closeBlock.Abreast := by
  intro i t hc
  rw [closed_closeBlock] at hc
  rw [index_closeBlock]
  split at hc
  · simp only [Option.some.injEq, Prod.mk.injEq] at hc
    exact Nat.le_of_eq hc.1.symm
  · exact h.abreast i t hc

theorem onClosed_closeBlock {p : Parser σ} (h : p.current.kind = .rightBrace) :
    p.closeBlock.onClosed = true := by
  rw [onClosed_eq_true_iff, closed_closeBlock, if_pos h, index_closeBlock]
  exact ⟨_, rfl⟩

/-! ### Where an action leaves the parser -/

variable [TokenStream σ] {p q r : Parser σ}

/-- An action that began at `p` has left the parser at `q`, on the last token of what it read. -/
structure EndsOn (p q : Parser σ) : Prop where
  genuine : q.Genuine
  /-- As many stray braces are ahead of `q` as were ahead of `p`. -/
  strays_eq : strays q.advance.upcoming = strays p.upcoming
  suffix : q.upcoming <:+ p.upcoming
  /-- The next token to be read lies behind the first one. -/
  progress : q.advance.upcoming <:+ p.advance.upcoming
  abreast : q.Abreast
  not_leftBrace : q.current.kind ≠ .leftBrace
  /-- A closing brace is the last token only of a block. -/
  onClosed : q.current.kind = .rightBrace → q.onClosed = true

/-- An action that began at `p` has left the parser at `q`, on a token that it could not read. -/
structure StopsAt (p q : Parser σ) : Prop where
  genuine : q.Genuine
  /-- As many stray braces are ahead, from the current token on, as were ahead of `p`. -/
  strays_eq : strays q.upcoming = strays p.upcoming
  suffix : q.upcoming <:+ p.upcoming
  behind : q.Behind

/-- Where an action leaves the parser that has rejected the text. -/
def GivesUp (p q : Parser σ) : Prop :=
  EndsOn p q ∨ StopsAt p q

variable [LawfulTokenStream σ]

theorem strays_upcoming_of_plain (h : p.current.kind.Plain) :
    strays p.upcoming = strays p.advance.upcoming := by
  rw [upcoming_of_ne_eof h.1, strays_cons_of_ne h.2.1 h.2.2]

theorem EndsOn.refl (hg : p.Genuine) (ha : p.Abreast) (hk : p.current.kind.Plain) :
    EndsOn p p where
  genuine := hg
  strays_eq := (strays_upcoming_of_plain hk).symm
  suffix := List.suffix_rfl
  progress := List.suffix_rfl
  abreast := ha
  not_leftBrace := hk.2.1
  onClosed h := absurd h hk.2.2

/-- **One action after another.** The second begins on the token after the last one of the first. -/
theorem EndsOn.trans (h : EndsOn p q) (h' : EndsOn q.advance r) : EndsOn p r where
  genuine := h'.genuine
  strays_eq := h'.strays_eq.trans h.strays_eq
  suffix := (h'.suffix.trans h.genuine.upcoming_advance_suffix).trans h.suffix
  progress := (h'.progress.trans h.genuine.advance.upcoming_advance_suffix).trans h.progress
  abreast := h'.abreast
  not_leftBrace := h'.not_leftBrace
  onClosed := h'.onClosed

theorem EndsOn.trans_stopsAt (h : EndsOn p q) (h' : StopsAt q.advance r) :
    StopsAt p r where
  genuine := h'.genuine
  strays_eq := h'.strays_eq.trans h.strays_eq
  suffix := (h'.suffix.trans h.genuine.upcoming_advance_suffix).trans h.suffix
  behind := h'.behind

theorem EndsOn.trans_givesUp (h : EndsOn p q) (h' : GivesUp q.advance r) : GivesUp p r :=
  h'.imp h.trans h.trans_stopsAt

omit [LawfulTokenStream σ] in
theorem EndsOn.length_ahead_le (h : EndsOn p q) :
    q.advance.ahead.length ≤ p.advance.ahead.length := by
  have := h.progress.length_le
  rw [length_upcoming, length_upcoming] at this
  omega

omit [LawfulTokenStream σ] in
/-- Where there was room for the tokens behind `p`, there is room for the rounds of a loop. -/
theorem EndsOn.length_ahead_lt_of_le {N fuel : Nat} (h : EndsOn p q)
    (hle : p.advance.upcoming.length ≤ N) (hN : N ≤ fuel) : q.advance.ahead.length < fuel := by
  have hlen := h.length_ahead_le
  rw [length_upcoming] at hle
  omega

/-- A separator takes up room as well. -/
theorem EndsOn.length_upcoming_le (h : EndsOn p q) :
    q.advance.advance.upcoming.length ≤ p.advance.upcoming.length :=
  (h.genuine.advance.upcoming_advance_suffix.trans h.progress).length_le

omit [LawfulTokenStream σ] in
/-- A report does not move the parser. -/
theorem EndsOn.report (h : EndsOn p q) (d : Diagnostic) : EndsOn p (q.report d) :=
  { h with }

theorem EndsOn.advance (h : EndsOn p q) (hk : q.peek.kind.Plain) : EndsOn p q.advance :=
  h.trans (EndsOn.refl h.genuine.advance h.abreast.advance.abreast hk)

/-! ### Fewer tokens ahead -/

theorem length_ahead_advance_lt (h : q.current.kind ≠ .eof) :
    q.advance.ahead.length < q.ahead.length := by
  rw [ahead_of_ne_eof h, List.length_cons]
  exact Nat.lt_succ_self _

/-- What is read behind a separator leaves fewer tokens ahead. -/
theorem EndsOn.length_ahead_lt (h : EndsOn q.advance r) (hq : q.peek.kind.Plain) :
    r.advance.ahead.length < q.advance.ahead.length :=
  Nat.lt_of_le_of_lt h.length_ahead_le (length_ahead_advance_lt (q := q.advance) hq.1)

/-- A token that is not the end is passed when the parser comes to stand on a later one, or moves
on. -/
theorem length_ahead_advance_lt_of_suffix (hp : p.current.kind ≠ .eof) (hg : q.Genuine)
    (h : q.upcoming <:+ p.upcoming) : q.advance.ahead.length < p.ahead.length := by
  have hlen := h.length_le
  rw [length_upcoming, length_upcoming] at hlen
  by_cases hq : q.current.kind = .eof
  · -- At the end nothing is ahead, while the token at `p` was ahead of `p`.
    rw [hg.ahead_advance, ahead_of_eof hq, ahead_of_ne_eof hp, List.tail_nil, List.length_nil,
      List.length_cons]
    exact Nat.succ_pos _
  · have := length_ahead_advance_lt hq
    omega

omit [LawfulTokenStream σ] in
theorem length_ahead_lt_of_suffix (h : q.upcoming <:+ p.upcoming)
    (hk : q.current.kind ≠ p.current.kind) : q.ahead.length < p.ahead.length := by
  have hlen := h.length_le
  rw [length_upcoming, length_upcoming] at hlen
  refine Nat.lt_of_le_of_ne (by omega) fun he => hk ?_
  -- Lists of one length of which one is the end of the other are one list.
  have heq : q.upcoming = p.upcoming :=
    h.eq_of_length (by rw [length_upcoming, length_upcoming, he])
  have hc := q.head?_upcoming
  rw [heq, p.head?_upcoming] at hc
  rw [Option.some.inj hc]

/-! ### While the rest of a statement is skipped -/

/-- Where no brace is stray, the parser does not stand on a closing one. -/
theorem kind_ne_rightBrace (h : strays p.upcoming = 0) : p.current.kind ≠ .rightBrace := by
  intro hr
  rw [upcoming_of_ne_eof (by simp [hr]), strays_cons_of_rightBrace hr] at h
  exact absurd h (Nat.succ_ne_zero _)

/-- Where skipping leaves a parser that has rejected a statement which began at `p`: on a brace that
must not be passed, or on the last token of what was skipped. -/
structure Skipped (p : Parser σ) (onOuterBrace : Bool) (q : Parser σ) : Prop where
  genuine : q.Genuine
  suffix : q.upcoming <:+ p.upcoming
  abreast : q.Abreast
  strays_eq : strays (if onOuterBrace then q else q.advance).upcoming = strays p.upcoming
  outer : onOuterBrace = true → q.current.kind = .rightBrace ∧ q.Behind

/-- Where no brace is stray, skipping does not stop on one. -/
theorem Skipped.eq_false {b : Bool} (h : Skipped p b q) (hnone : strays p.upcoming = 0) :
    b = false := by
  cases b with
  | false => rfl
  | true =>
    have hs : strays q.upcoming = 0 := h.strays_eq.trans hnone
    exact absurd (h.outer rfl).1 (kind_ne_rightBrace hs)

/-- What holds inside `depth` groups that skipping has entered: their braces are still to come. -/
structure Skipping (p : Parser σ) (depth : Nat) (q : Parser σ) : Prop where
  genuine : q.Genuine
  suffix : q.upcoming <:+ p.upcoming
  abreast : q.Abreast
  not_onClosed : q.current.kind = .rightBrace → q.onClosed = false
  strays_eq : strays q.upcoming - depth = strays p.upcoming

/-- One more token is skipped, and the count of groups follows the braces. -/
theorem Skipping.advance {depth depth' : Nat} (hq : Skipping p depth q)
    (h : strays q.advance.upcoming - depth' = strays q.upcoming - depth) :
    Skipping p depth' q.advance where
  genuine := hq.genuine.advance
  suffix := hq.genuine.upcoming_advance_suffix.trans hq.suffix
  abreast := hq.abreast.advance.abreast
  not_onClosed _ := hq.abreast.advance.onClosed
  strays_eq := h.trans hq.strays_eq

omit [LawfulTokenStream σ] in
theorem StopsAt.skipping (h : StopsAt p q) : Skipping p 0 q where
  genuine := h.genuine
  suffix := h.suffix
  abreast := h.behind.abreast
  not_onClosed _ := h.behind.onClosed
  strays_eq := h.strays_eq

theorem EndsOn.skipping (h : EndsOn p q) (hr : q.current.kind ≠ .rightBrace) :
    Skipping p 0 q where
  genuine := h.genuine
  suffix := h.suffix
  abreast := h.abreast
  not_onClosed hk := absurd hk hr
  strays_eq := by
    rw [Nat.sub_zero, ← h.strays_eq]
    -- The current token is no brace, so it does not matter whether it counts as read.
    by_cases he : q.current.kind = .eof
    · rw [h.genuine.upcoming_advance_of_eof he]
    · exact strays_upcoming_of_plain ⟨he, h.not_leftBrace, hr⟩

/-! ### Between statements -/

/-- What holds between the statements of a sequence that began at `p`: nothing but whole statements
has been passed, and in a block no brace of a group around it. If no such brace is ahead, it does
not matter whether one would have ended the sequence. -/
structure Between (ends : TokenKind → Bool) (p q : Parser σ) : Prop where
  genuine : q.Genuine
  suffix : q.upcoming <:+ p.upcoming
  behind : q.Behind
  strays_eq : ends .rightBrace = true ∨ strays p.upcoming = 0 →
    strays q.upcoming = strays p.upcoming

omit [LawfulTokenStream σ] in
theorem Between.trans {ends : TokenKind → Bool} (h : Between ends p q) (h' : Between ends q r) :
    Between ends p r where
  genuine := h'.genuine
  suffix := h'.suffix.trans h.suffix
  behind := h'.behind
  strays_eq he := by
    have hq := h.strays_eq he
    -- The condition on the braces ahead carries over to the place in between.
    rw [← hq] at he
    exact (h'.strays_eq he).trans hq

theorem EndsOn.between {ends : TokenKind → Bool} (h : EndsOn p q) : Between ends p q.advance where
  genuine := h.genuine.advance
  suffix := h.genuine.upcoming_advance_suffix.trans h.suffix
  behind := h.abreast.advance
  strays_eq _ := h.strays_eq

/-- The end of a block that began at `p`: its own closing brace, or the end of the input if no brace
closes it. -/
theorem Between.closeBlock {ends : TokenKind → Bool} (hp : p.Genuine)
    (hk : p.current.kind = .leftBrace) (h : Between ends p.advance q)
    (hends : ends .rightBrace = true) (hq : q.current.kind = .rightBrace ∨ q.current.kind = .eof) :
    EndsOn p q.closeBlock := by
  have hs := h.strays_eq (.inl hends)
  have hpe : p.current.kind ≠ .eof := by simp [hk]
  have hsp : strays p.upcoming = strays p.advance.upcoming - 1 := by
    rw [upcoming_of_ne_eof hpe, strays_cons_of_leftBrace hk]
  refine
    { genuine := by simpa using h.genuine
      strays_eq := ?_
      suffix := ?_
      progress := ?_
      abreast := h.behind.abreast_closeBlock
      not_leftBrace := ?_
      onClosed := fun hr => onClosed_closeBlock (by simpa using hr) }
  · rw [upcoming_advance_closeBlock, hsp, ← hs]
    rcases hq with hr | he
    · -- The brace that ends the block was the nearest of the stray ones inside it.
      rw [upcoming_of_ne_eof (p := q) (by simp [hr]), strays_cons_of_rightBrace hr,
        Nat.add_sub_cancel]
    · -- No stray brace is left, so none was ahead of the block.
      rw [h.genuine.upcoming_advance_of_eof he, upcoming_of_eof he,
        strays_cons_of_ne (by simp [he]) (by simp [he])]
      rfl
  · rw [upcoming_closeBlock]
    exact h.suffix.trans hp.upcoming_advance_suffix
  · rw [upcoming_advance_closeBlock]
    exact h.genuine.upcoming_advance_suffix.trans h.suffix
  · rcases hq with hr | he <;> simp [*]

end Parser

end MonkeySyntax
