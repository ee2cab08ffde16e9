import MonkeySyntax.Parser.Level
import MonkeySyntax.Proofs.Place
import MonkeySyntax.Proofs.TokenMap

/-!
# Two parsers in step

Two parsers whose tokens correspond do the same thing as long as the tokens do correspond. The left
one may stand in the middle of a long text and the right one at the start of a short one, so it has
to be said how far the correspondence goes and what comes then. A `Comparison` says it. There are
tokens that both have ahead; then comes the **edge**, a token that both see but which only one of
them may pass; and what lies beyond the edge is not compared. The edge is one of three things:

* the end of the input on both sides (`Comparison.Final`), and then nothing lies beyond it;
* a semicolon on both sides;
* on the left a closing brace, and on the right the end of the input.

Before an edge that is not final, the tokens must be sealed: each group that is opened before the
edge is closed before it. Otherwise a block could run across the edge.

Two parsers are **in step** (`Comparison.InStep`) when they have corresponding tokens ahead and
agree in everything else that they know: the left one has made the same diagnostics since the
comparison began, and has finished the corresponding blocks.
-/

namespace MonkeySyntax

/-- How the tokens on the left correspond to those on the right. -/
structure Comparison where
  /-- What a token on the right is on the left, when it becomes part of a tree. -/
  tree : Token → Token
  /-- What a token on the right is on the left, when it is reported. -/
  note : Token → Token
  /-- The diagnostics that the left parser had made before. -/
  earlier : List Diagnostic
  /-- The number of tokens that the left parser had passed before. -/
  offset : Nat
  /-- The index of the edge on the left. -/
  stop : Nat
  edge : Token
  beyondLeft : List Token
  beyondRight : List Token
  looksLike : ∀ t, (tree t).LooksLike t
  note_eq_tree : ∀ t, t.kind ≠ .eof → note t = tree t
  note_of_eof : ∀ t, t.kind = .eof → (note t).kind = .eof ∨ (note t).kind = .rightBrace
  edge_kind : edge.kind = .eof ∨ edge.kind = .semicolon

namespace Comparison

variable (c : Comparison)

/-- The input ends on both sides. -/
def Final : Prop :=
  c.edge.kind = .eof ∧ (c.note c.edge).kind = .eof

variable {c} {t : Token} {k : TokenKind}

/-! ### The tokens on the left -/

theorem kind_note_of_ne_eof (h : t.kind ≠ .eof) : (c.note t).kind = t.kind := by
  rw [c.note_eq_tree t h]
  exact (c.looksLike t).1

/-- Corresponding tokens are of one kind, except at the edge. -/
theorem kind_note (t : Token) :
    (c.note t).kind = t.kind ∨ t.kind = .eof ∧ (c.note t).kind = .rightBrace := by
  by_cases h : t.kind = .eof
  · rcases c.note_of_eof t h with he | hr
    · exact .inl (he.trans h.symm)
    · exact .inr ⟨h, hr⟩
  · exact .inl (kind_note_of_ne_eof h)

theorem kind_note_eq_iff (he : k ≠ .eof) (hr : k ≠ .rightBrace) :
    (c.note t).kind = k ↔ t.kind = k := by
  rcases kind_note (c := c) t with h | ⟨ht, hn⟩
  · rw [h]
  · rw [ht, hn]
    exact ⟨fun h => absurd h.symm hr, fun h => absurd h.symm he⟩

theorem level_note (t : Token) : (c.note t).kind.level = t.kind.level := by
  rcases kind_note (c := c) t with h | ⟨ht, hn⟩
  · rw [h]
  · rw [ht, hn]
    rfl

theorem note_closes_iff :
    ((c.note t).kind = .rightBrace ∨ (c.note t).kind = .eof) ↔
      (t.kind = .rightBrace ∨ t.kind = .eof) := by
  rcases kind_note (c := c) t with h | ⟨ht, hn⟩
  · rw [h]
  · simp [ht, hn]

variable {σ τ : Type} [TokenStream σ] [TokenStream τ]

/-- The two parsers have corresponding tokens ahead, and agree in everything else. -/
structure InStep (c : Comparison) (ts : List Token) (p : Parser σ) (q : Parser τ) : Prop where
  upcoming_left : p.upcoming = ts.map c.note ++ c.note c.edge :: c.beyondLeft
  upcoming_right : q.upcoming = ts ++ c.edge :: c.beyondRight
  genuine_left : p.Genuine
  genuine_right : q.Genuine
  index_eq : p.index = q.index + c.offset
  /-- The end of the input has no index of its own, since moving on there goes on counting. -/
  index_edge : ¬ c.Final → p.index + ts.length = c.stop
  closed_iff : ∀ i, (∃ t, p.closed = some (i + c.offset, t)) ↔ ∃ t, q.closed = some (i, t)
  diagnostics_eq : p.diagnostics = c.earlier ++ q.diagnostics.map (Diagnostic.mapToken c.note)
  sealed : ¬ c.Final → Sealed ts
  abreast : q.Abreast
  /-- No block ends on the edge. -/
  behind : ts = [] → q.Behind

/-- In step, at the edge or before it. -/
def Within (c : Comparison) (p : Parser σ) (q : Parser τ) : Prop :=
  ∃ ts, c.InStep ts p q

/-- In step, and not about to pass the edge. The end of the input is never passed. -/
def Inside (c : Comparison) (p : Parser σ) (q : Parser τ) : Prop :=
  ∃ ts, c.InStep ts p q ∧ (ts ≠ [] ∨ c.Final)

/-- One of the two has passed the edge: both, if it is a semicolon, and only the right one, if it is
a brace on the left. -/
def Apart (c : Comparison) (p : Parser σ) (q : Parser τ) : Prop :=
  ¬ c.Final ∧ ∃ p' q', c.InStep [] p' q' ∧ q = q'.advance ∧
    (c.edge.kind = .semicolon ∧ p = p'.advance ∨ c.edge.kind = .eof ∧ p = p')

variable {p : Parser σ} {q : Parser τ} {ts : List Token}

theorem Inside.within (h : c.Inside p q) : c.Within p q :=
  h.imp fun _ h => h.1

theorem Within.genuine_right (h : c.Within p q) : q.Genuine := by
  obtain ⟨ts, h⟩ := h
  exact InStep.genuine_right h

/-! ### The current tokens -/

theorem InStep.current_of_cons (h : c.InStep (t :: ts) p q) : q.current = t :=
  Parser.current_of_upcoming h.upcoming_right

theorem InStep.current_of_nil (h : c.InStep [] p q) : q.current = c.edge :=
  Parser.current_of_upcoming h.upcoming_right

theorem Within.current_eq (h : c.Within p q) : p.current = c.note q.current := by
  obtain ⟨ts, h⟩ := h
  cases ts with
  | nil =>
    rw [h.current_of_nil]
    exact Parser.current_of_upcoming h.upcoming_left
  | cons t ts =>
    rw [h.current_of_cons]
    exact Parser.current_of_upcoming h.upcoming_left

theorem Within.current_kind_iff (h : c.Within p q) (he : k ≠ .eof) (hr : k ≠ .rightBrace) :
    p.current.kind = k ↔ q.current.kind = k := by
  rw [h.current_eq]
  exact kind_note_eq_iff he hr

/-- What both see is not the edge, unless it may be. -/
theorem Within.inside (h : c.Within p q) (he : q.current.kind ≠ .eof)
    (hs : q.current.kind ≠ .semicolon) : c.Inside p q := by
  obtain ⟨ts, h⟩ := h
  refine ⟨ts, h, .inl ?_⟩
  rintro rfl
  -- The right parser sees the edge, which is the end or a semicolon.
  rw [h.current_of_nil] at he hs
  rcases c.edge_kind with hk | hk
  · exact he hk
  · exact hs hk

/-- Before the edge, the end of the input is not ahead. -/
theorem InStep.ne_eof_of_cons (h : c.InStep (t :: ts) p q) : t.kind ≠ .eof := by
  intro he
  rw [← h.current_of_cons] at he
  -- Nothing lies beyond the end, but here the edge does.
  have hlen := congrArg List.length h.upcoming_right
  rw [Parser.upcoming_of_eof he] at hlen
  simp at hlen

theorem Inside.current_kind (h : c.Inside p q) : p.current.kind = q.current.kind := by
  obtain ⟨ts, h, hts⟩ := h
  rw [Within.current_eq ⟨ts, h⟩]
  cases ts with
  | nil =>
    obtain ⟨hr, hl⟩ := hts.resolve_left (fun h => h rfl)
    rw [h.current_of_nil, hl, hr]
  | cons t ts =>
    rw [h.current_of_cons]
    exact kind_note_of_ne_eof h.ne_eof_of_cons

/-- A token that becomes part of a tree. -/
theorem Within.current_eq_tree (h : c.Within p q) (he : q.current.kind ≠ .eof) :
    p.current = c.tree q.current := by
  rw [h.current_eq, c.note_eq_tree _ he]

theorem Within.literal_eq (h : c.Within p q) (he : q.current.kind ≠ .eof) :
    p.current.literal = q.current.literal := by
  rw [h.current_eq_tree he]
  exact (c.looksLike q.current).2

theorem Within.onClosed_eq (h : c.Within p q) : p.onClosed = q.onClosed := by
  obtain ⟨ts, h⟩ := h
  rw [Bool.eq_iff_iff, Parser.onClosed_eq_true_iff, Parser.onClosed_eq_true_iff, h.index_eq]
  exact h.closed_iff q.index

/-! ### Braces -/

/-- The stray braces from the edge on. -/
def base (c : Comparison) : Nat :=
  strays (c.edge :: c.beyondRight)

theorem InStep.strays_eq (h : c.InStep ts p q) (hc : ¬ c.Final) :
    strays q.upcoming = strays ts + c.base := by
  rw [h.upcoming_right, (h.sealed hc).strays_append, base]

/-- Inside a group that is closed before the edge. -/
theorem Within.inside_of_strays (h : c.Within p q) (hs : c.Final ∨ c.base < strays q.upcoming) :
    c.Inside p q := by
  obtain ⟨ts, h⟩ := h
  refine ⟨ts, h, ?_⟩
  by_cases hc : c.Final
  · exact .inr hc
  · -- At the edge only the stray braces from there on would be left.
    refine .inl ?_
    rintro rfl
    have hlt := hs.resolve_left hc
    rw [h.strays_eq hc, strays_nil] at hlt
    omega

/-! ### Moves -/

theorem InStep.report (h : c.InStep ts p q) (d : Diagnostic) :
    c.InStep ts (p.report (d.mapToken c.note)) (q.report d) :=
  { h with
    diagnostics_eq := by
      rw [Parser.diagnostics_report, Parser.diagnostics_report, h.diagnostics_eq]
      simp }

theorem Within.report (h : c.Within p q) (d : Diagnostic) :
    c.Within (p.report (d.mapToken c.note)) (q.report d) :=
  h.imp fun _ h => h.report d

theorem Within.drop (h : c.Within p q) : c.Within p.drop q.drop :=
  h.imp fun _ h => { h with }

/-- Remembering the brace of a block. -/
theorem Inside.closeBlock (h : c.Inside p q) (hb : q.Behind) :
    c.Inside p.closeBlock q.closeBlock := by
  have hkind := h.current_kind
  obtain ⟨ts, h, hts⟩ := h
  refine ⟨ts, ?_, hts⟩
  by_cases hr : q.current.kind = .rightBrace
  · have hp : p.current.kind = .rightBrace := hkind.trans hr
    refine
      { upcoming_left := by simpa using h.upcoming_left
        upcoming_right := by simpa using h.upcoming_right
        genuine_left := by simpa using h.genuine_left
        genuine_right := by simpa using h.genuine_right
        index_eq := by simpa using h.index_eq
        index_edge := by simpa using h.index_edge
        closed_iff := fun i => ?_
        diagnostics_eq := by simpa using h.diagnostics_eq
        sealed := h.sealed
        abreast := hb.abreast_closeBlock
        behind := fun hnil => ?_ }
    · rw [Parser.closed_closeBlock, if_pos hp, Parser.closed_closeBlock, if_pos hr, h.index_eq]
      simp
    · -- The edge is not a closing brace on the right.
      subst hnil
      rw [h.current_of_nil] at hr
      rcases c.edge_kind with hk | hk <;> simp [hk] at hr
  · -- Neither parser stands on a brace, so neither remembers one.
    have hp : p.closeBlock = p := if_neg (hkind ▸ hr)
    have hq : q.closeBlock = q := if_neg hr
    rw [hp, hq]
    exact h

variable [LawfulTokenStream σ] [LawfulTokenStream τ]

theorem InStep.advance (h : c.InStep (t :: ts) p q) : c.InStep ts p.advance q.advance := by
  have hq : q.current.kind ≠ .eof := h.current_of_cons ▸ h.ne_eof_of_cons
  have hp : p.current.kind ≠ .eof := by
    rw [Within.current_eq ⟨_, h⟩, kind_note_of_ne_eof hq]
    exact hq
  -- Each parser passes the token that it has ahead first.
  have hleft := h.upcoming_left
  have hright := h.upcoming_right
  rw [Parser.upcoming_of_ne_eof hp] at hleft
  rw [Parser.upcoming_of_ne_eof hq] at hright
  exact
    { upcoming_left := (List.cons.inj hleft).2
      upcoming_right := (List.cons.inj hright).2
      genuine_left := h.genuine_left.advance
      genuine_right := h.genuine_right.advance
      index_eq := by
        rw [Parser.index_advance, Parser.index_advance, h.index_eq]
        omega
      index_edge := fun hc => by
        have hstop := h.index_edge hc
        rw [List.length_cons] at hstop
        rw [Parser.index_advance]
        omega
      closed_iff := h.closed_iff
      diagnostics_eq := h.diagnostics_eq
      sealed := fun hc => (h.sealed hc).2
      abreast := h.abreast.advance.abreast
      behind := fun _ => h.abreast.advance }

/-- At the end of the input, moving on changes nothing. -/
theorem InStep.advance_final (h : c.InStep [] p q) (hc : c.Final) :
    c.InStep [] p.advance q.advance := by
  have hq : q.current.kind = .eof := h.current_of_nil ▸ hc.1
  have hp : p.current.kind = .eof := by
    rw [Within.current_eq ⟨_, h⟩, h.current_of_nil]
    exact hc.2
  exact
    { upcoming_left := (h.genuine_left.upcoming_advance_of_eof hp).trans h.upcoming_left
      upcoming_right := (h.genuine_right.upcoming_advance_of_eof hq).trans h.upcoming_right
      genuine_left := h.genuine_left.advance
      genuine_right := h.genuine_right.advance
      index_eq := by
        rw [Parser.index_advance, Parser.index_advance, h.index_eq]
        omega
      index_edge := fun h => absurd hc h
      closed_iff := h.closed_iff
      diagnostics_eq := h.diagnostics_eq
      sealed := h.sealed
      abreast := h.abreast.advance.abreast
      behind := fun _ => h.abreast.advance }

theorem Inside.advance (h : c.Inside p q) : c.Within p.advance q.advance := by
  obtain ⟨ts, h, hts⟩ := h
  cases ts with
  -- The parsers are inside at the edge only if it is the end of the input.
  | nil => exact ⟨[], h.advance_final (hts.resolve_left fun h => h rfl)⟩
  | cons t ts => exact ⟨ts, h.advance⟩

theorem Inside.peek_eq (h : c.Inside p q) : p.peek = c.note q.peek :=
  h.advance.current_eq

theorem Inside.peek_kind_iff (h : c.Inside p q) (he : k ≠ .eof) (hr : k ≠ .rightBrace) :
    p.peek.kind = k ↔ q.peek.kind = k := by
  rw [h.peek_eq]
  exact kind_note_eq_iff he hr

/-- A token that a rule asks for is not the edge. -/
theorem Inside.advance_inside (h : c.Inside p q) (hk : q.peek.kind = k) (he : k ≠ .eof)
    (hs : k ≠ .semicolon) : c.Inside p.advance q.advance :=
  h.advance.inside (hk ▸ he) (hk ▸ hs)

end Comparison

end MonkeySyntax
