import MonkeySyntax.Proofs.Advance
import MonkeySyntax.Proofs.Agree
import MonkeySyntax.Proofs.InStep

/-!
# Rules keep parsers in step

Run from two parsers in step, a rule of the grammar ends alike on both sides. If it is done, the
trees correspond and the parsers are in step, before the edge; if it has rejected the text, it has
made corresponding diagnostics, and the parsers are in step, at the edge at most. The theorems
follow the grammar once more.

No rule asks for the kind of token that can stand at the edge, so most of them cannot tell an edge
from any other token that is not welcome. There are two exceptions. A statement may end on the edge
if that is a semicolon (`Comparison.Ended`). And a block would take in the edge if it came to it;
but the tokens before the edge are sealed, so there is a brace for the block to end on
(`Comparison.Within.inside_of_strays`), and `Advance` says that the block does not miss it.
-/

namespace MonkeySyntax

namespace TokenKind

/-- A kind that no edge has, on either side. -/
def Inner (k : TokenKind) : Prop :=
  k ≠ .eof ∧ k ≠ .rightBrace ∧ k ≠ .semicolon

instance (k : TokenKind) : Decidable k.Inner :=
  inferInstanceAs (Decidable (_ ∧ _ ∧ _))

end TokenKind

namespace Comparison

variable {σ τ : Type} [TokenStream σ] [TokenStream τ]

/-- The same tree has been built on both sides, before the edge. -/
def Built (c : Comparison) (e e' : Node) (p : Parser σ) (q : Parser τ) : Prop :=
  e = e'.mapTokens c.tree ∧ c.Inside p q

/-- The same trees have been built on both sides, before the edge. -/
def BuiltEach (c : Comparison) (es es' : List Node) (p : Parser σ) (q : Parser τ) : Prop :=
  es = Node.mapTokensEach c.tree es' ∧ c.Inside p q

/-- A statement has ended on both sides, before the edge or on it. -/
def Ended (c : Comparison) (p : Parser σ) (q : Parser τ) : Prop :=
  c.Inside p q ∨ c.edge.kind = .semicolon ∧ c.InStep [] p q

/-- Skipping has stopped on both sides. At a brace that is an edge only on the left, the left side
has come to a brace that it must not pass, and the right side to the end. -/
def Halted (c : Comparison) (b b' : Bool) (p : Parser σ) (q : Parser τ) : Prop :=
  b = b' ∧ c.Ended p q ∨
    b = true ∧ b' = false ∧ ¬ c.Final ∧ c.edge.kind = .eof ∧ c.InStep [] p q

/-- While both skip, the groups that they have entered are closed before the edge. -/
def Skips (c : Comparison) (depth depth' : Nat) (p : Parser σ) (q : Parser τ) : Prop :=
  depth = depth' ∧ (depth = 0 ∨ q.Behind) ∧
    ∃ ts, c.InStep ts p q ∧ (¬ c.Final → depth ≤ strays ts)

/-- The same statement has been read on both sides. -/
def Stated (c : Comparison) (s s' : Node) (p : Parser σ) (q : Parser τ) : Prop :=
  s = s'.mapTokens c.tree ∧ c.Ended p q

/-- What is known of the readers of expressions that the rules are given on the two sides. -/
structure Readers (c : Comparison) (expr : Nat → Parse σ Node) (expr' : Nat → Parse τ Node) :
    Prop where
  /-- No expression begins at the end of the input. -/
  agrees : ∀ (p : Parser σ) (q : Parser τ) (floor : Nat), c.Within p q →
    ((expr floor).run p).Agrees (fun e e' p' q' => q.current.kind ≠ .eof ∧ c.Built e e' p' q')
      c.Within ((expr' floor).run q)
  advances : Parse.Advances True 0 expr'

end Comparison

namespace Parse

open Comparison

variable {σ τ : Type} [TokenStream σ] [LawfulTokenStream σ] [TokenStream τ] [LawfulTokenStream τ]
  {c : Comparison} {expr : Nat → Parse σ Node} {expr' : Nat → Parse τ Node} {p : Parser σ}
  {q : Parser τ}

/-- An expression inside a rule. -/
theorem Readers.next (he : c.Readers expr expr') (h : c.Inside p q) (floor : Nat) :
    ((expr floor).run p.advance).Agrees c.Built c.Within ((expr' floor).run q.advance) :=
  (he.agrees _ _ _ h.advance).mono (fun _ _ _ _ hb => hb.2) fun _ _ h => h

/-- **A look ahead.** Both sides see the same kind of token, unless it is one of the two that an
edge may have on the left and on the right. -/
theorem agrees_ite_peek {α β : Type} {D : α → β → Parser σ → Parser τ → Prop}
    {R : Parser σ → Parser τ → Prop} {m n : Parse σ α} {m' n' : Parse τ β} {kind : TokenKind}
    (h : c.Inside p q) (he : kind ≠ .eof) (hr : kind ≠ .rightBrace)
    (hthen : q.peek.kind = kind → (m.run p).Agrees D R (m'.run q))
    (helse : q.peek.kind ≠ kind → (n.run p).Agrees D R (n'.run q)) :
    ((if p.peek.kind = kind then m else n).run p).Agrees D R
      ((if q.peek.kind = kind then m' else n').run q) := by
  have hiff : p.peek.kind = kind ↔ q.peek.kind = kind := h.peek_kind_iff he hr
  by_cases hq : q.peek.kind = kind
  · rw [if_pos (hiff.2 hq), if_pos hq]
    exact hthen hq
  · rw [if_neg fun hp => hq (hiff.1 hp), if_neg hq]
    exact helse hq

theorem expect_agrees {D : Unit → Unit → Parser σ → Parser τ → Prop} {kind : TokenKind}
    (h : c.Inside p q) (hk : kind.Inner)
    (hD : c.Inside p.advance q.advance → q.peek.kind = kind → D () () p.advance q.advance) :
    ((expect kind).run p).Agrees D c.Within ((expect kind).run q) := by
  simp only [expect, agrees_peek]
  refine agrees_ite_peek h hk.1 hk.2.1 (fun hq => ?_) fun _ => ?_
  · exact hD (h.advance_inside hq hk.1 hk.2.2) hq
  · rw [agrees_reject, h.peek_eq]
    exact h.within.report (.expected kind q.peek)

/-! ### Names and literals -/

omit [LawfulTokenStream σ] [LawfulTokenStream τ] in
theorem identifier_agrees (h : c.Inside p q) (hk : q.current.kind ≠ .eof) :
    (identifier.run p).Agrees c.Built c.Within (identifier.run q) := by
  have htoken : p.current = c.tree q.current := h.within.current_eq_tree hk
  have hliteral : p.current.literal = q.current.literal := h.within.literal_eq hk
  simp only [identifier, agrees_current, agrees_pure]
  exact ⟨by rw [hliteral, htoken]; rfl, h⟩

omit [LawfulTokenStream σ] [LawfulTokenStream τ] in
theorem integer_agrees (h : c.Inside p q) (hk : q.current.kind ≠ .eof) :
    (integer.run p).Agrees c.Built c.Within (integer.run q) := by
  have htoken : p.current = c.tree q.current := h.within.current_eq_tree hk
  have hliteral : p.current.literal = q.current.literal := h.within.literal_eq hk
  simp only [integer, agrees_current]
  rw [hliteral]
  split
  · exact ⟨by rw [htoken]; rfl, h⟩
  · rw [agrees_reject, h.within.current_eq]
    exact h.within.report (.badInteger q.current)

omit [LawfulTokenStream σ] [LawfulTokenStream τ] in
theorem boolean_agrees (h : c.Inside p q) (hk : q.current.kind ≠ .eof) :
    (boolean.run p).Agrees c.Built c.Within (boolean.run q) := by
  simp only [boolean, agrees_current, agrees_pure]
  exact ⟨by rw [h.current_kind, h.within.current_eq_tree hk]; rfl, h⟩

omit [LawfulTokenStream σ] [LawfulTokenStream τ] in
theorem string_agrees (h : c.Inside p q) (hk : q.current.kind ≠ .eof) :
    (string.run p).Agrees c.Built c.Within (string.run q) := by
  have htoken : p.current = c.tree q.current := h.within.current_eq_tree hk
  have hliteral : p.current.literal = q.current.literal := h.within.literal_eq hk
  simp only [string, agrees_current, agrees_pure]
  exact ⟨by rw [hliteral, htoken]; rfl, h⟩

/-! ### Operations and lists -/

section Rules

variable (he : c.Readers expr expr') (h : c.Inside p q)

include he h

theorem unary_agrees (hk : q.current.kind ≠ .eof) :
    ((unary expr).run p).Agrees c.Built c.Within ((unary expr').run q) := by
  have htoken : p.current = c.tree q.current := h.within.current_eq_tree hk
  have hliteral : p.current.literal = q.current.literal := h.within.literal_eq hk
  simp only [unary, agrees_current, agrees_advance]
  refine agrees_bind ((Readers.next he h _).mono (fun e e' p' q' hb => ?_) fun _ _ h => h)
  rw [agrees_pure]
  refine ⟨?_, hb.2⟩
  rw [hliteral, htoken, hb.1]
  rfl

theorem binary_agrees (hk : q.current.kind ≠ .eof) (left : Node) :
    ((binary expr (left.mapTokens c.tree)).run p).Agrees c.Built c.Within
      ((binary expr' left).run q) := by
  have htoken : p.current = c.tree q.current := h.within.current_eq_tree hk
  have hliteral : p.current.literal = q.current.literal := h.within.literal_eq hk
  have hkind : p.current.kind = q.current.kind := h.current_kind
  simp only [binary, agrees_current, agrees_advance]
  rw [hkind]
  refine agrees_bind ((Readers.next he h _).mono (fun e e' p' q' hb => ?_) fun _ _ h => h)
  rw [agrees_pure]
  refine ⟨?_, hb.2⟩
  rw [hliteral, htoken, hb.1]
  rfl

theorem grouped_agrees :
    ((grouped expr).run p).Agrees c.Built c.Within ((grouped expr').run q) := by
  simp only [grouped, agrees_advance]
  refine agrees_bind ((Readers.next he h _).mono (fun e e' p' q' hb => ?_) fun _ _ h => h)
  exact agrees_bind (expect_agrees hb.2 (by decide) fun hin _ => ⟨hb.1, hin⟩)

theorem expressionsRounds_agrees (items : List Node) (bound bound' : Nat) :
    ((rounds (expressionsRound expr) bound (Node.mapTokensEach c.tree items)).run p).Agrees
      c.BuiltEach c.Within ((rounds (expressionsRound expr') bound' items).run q) := by
  refine agrees_rounds c.BuiltEach (fun items items' p q hI => ?_) ⟨rfl, h⟩ bound bound'
  obtain ⟨rfl, h⟩ := hI
  simp only [expressionsRound, agrees_peek]
  refine agrees_ite_peek h (by decide) (by decide) (fun hq => ?_) fun _ => ?_
  · have hin : c.Inside p.advance q.advance := h.advance_inside hq (by decide) (by decide)
    simp only [agrees_advance]
    refine agrees_bind ((Readers.next he hin _).mono (fun e e' p' q' hb => ?_) fun _ _ h => h)
    rw [agrees_pure]
    exact ⟨by rw [hb.1, Node.mapTokensEach_append]; rfl, hb.2⟩
  · exact ⟨rfl, h⟩

theorem expressionList_agrees {closing : TokenKind} (hc : closing.Inner) (fuel fuel' : Nat) :
    ((expressionList expr fuel closing).run p).Agrees c.BuiltEach c.Within
      ((expressionList expr' fuel' closing).run q) := by
  simp only [expressionList, agrees_peek]
  refine agrees_ite_peek h hc.1 hc.2.1 (fun hq => ?_) fun _ => ?_
  · -- The list is empty.
    exact ⟨rfl, h.advance_inside hq hc.1 hc.2.2⟩
  · simp only [agrees_advance]
    refine agrees_bind ((Readers.next he h _).mono (fun e e' p' q' hb => ?_) fun _ _ h => h)
    obtain ⟨rfl, hin⟩ := hb
    refine agrees_bind ((expressionsRounds_agrees he hin [e'] fuel fuel').mono
      (fun es es' p' q' hb => ?_) fun _ _ h => h)
    exact agrees_bind (expect_agrees hb.2 hc fun hin _ => ⟨hb.1, hin⟩)

theorem array_agrees (hk : q.current.kind ≠ .eof) (fuel fuel' : Nat) :
    ((array expr fuel).run p).Agrees c.Built c.Within ((array expr' fuel').run q) := by
  simp only [array, agrees_current]
  refine agrees_bind ((expressionList_agrees he h (by decide) fuel fuel').mono
    (fun es es' p' q' hb => ?_) fun _ _ h => h)
  rw [agrees_pure]
  exact ⟨by rw [h.within.current_eq_tree hk, hb.1]; rfl, hb.2⟩

theorem call_agrees (hk : q.current.kind ≠ .eof) (callee : Node) (fuel fuel' : Nat) :
    ((call expr fuel (callee.mapTokens c.tree)).run p).Agrees c.Built c.Within
      ((call expr' fuel' callee).run q) := by
  simp only [call, agrees_current]
  refine agrees_bind ((expressionList_agrees he h (by decide) fuel fuel').mono
    (fun es es' p' q' hb => ?_) fun _ _ h => h)
  rw [agrees_pure]
  exact ⟨by rw [h.within.current_eq_tree hk, hb.1]; rfl, hb.2⟩

end Rules

/-! ### Statements -/

omit [LawfulTokenStream σ] [LawfulTokenStream τ] in
/-- A semicolon that both see may be the edge. -/
theorem ended_of_semicolon (h : c.Within p q) (hk : q.current.kind = .semicolon) :
    c.Ended p q := by
  obtain ⟨ts, h⟩ := h
  cases ts with
  | nil => exact .inr ⟨h.current_of_nil ▸ hk, h⟩
  | cons t ts => exact .inl ⟨t :: ts, h, .inl (List.cons_ne_nil t ts)⟩

theorem optionalSemicolon_agrees (h : c.Inside p q) :
    (optionalSemicolon.run p).Agrees (fun _ _ p q => c.Ended p q) c.Within
      (optionalSemicolon.run q) := by
  simp only [optionalSemicolon, agrees_peek]
  refine agrees_ite_peek h (by decide) (by decide) (fun hq => ?_) fun _ => ?_
  · exact ended_of_semicolon h.advance hq
  · exact .inl h

theorem letStatement_agrees (he : c.Readers expr expr') (h : c.Inside p q)
    (hk : q.current.kind ≠ .eof) :
    ((letStatement expr).run p).Agrees c.Stated c.Within ((letStatement expr').run q) := by
  have htoken : p.current = c.tree q.current := h.within.current_eq_tree hk
  simp only [letStatement, agrees_current]
  -- The name.
  refine agrees_bind (expect_agrees h (by decide) fun hname hkind => ?_)
  refine agrees_bind ((identifier_agrees hname (show q.peek.kind ≠ .eof by simp [hkind])).mono
    (fun n n' p q hn => ?_) fun _ _ h => h)
  -- The value.
  refine agrees_bind (expect_agrees hn.2 (by decide) fun hassign _ => ?_)
  simp only [agrees_advance]
  refine agrees_bind ((Readers.next he hassign _).mono (fun e e' p q hb => ?_) fun _ _ h => h)
  refine agrees_bind ((optionalSemicolon_agrees hb.2).mono (fun _ _ p q hs => ?_) fun _ _ h => h)
  rw [agrees_pure]
  exact ⟨by rw [htoken, hn.1, hb.1]; rfl, hs⟩

theorem returnStatement_agrees (he : c.Readers expr expr') (h : c.Inside p q)
    (hk : q.current.kind ≠ .eof) :
    ((returnStatement expr).run p).Agrees c.Stated c.Within ((returnStatement expr').run q) := by
  have htoken : p.current = c.tree q.current := h.within.current_eq_tree hk
  simp only [returnStatement, agrees_current, agrees_advance]
  refine agrees_bind ((Readers.next he h _).mono (fun e e' p q hb => ?_) fun _ _ h => h)
  refine agrees_bind ((optionalSemicolon_agrees hb.2).mono (fun _ _ p q hs => ?_) fun _ _ h => h)
  rw [agrees_pure]
  exact ⟨by rw [htoken, hb.1]; rfl, hs⟩

theorem expressionStatement_agrees (he : c.Readers expr expr') (h : c.Within p q) :
    ((expressionStatement expr).run p).Agrees c.Stated c.Within
      ((expressionStatement expr').run q) := by
  simp only [expressionStatement, agrees_current]
  refine agrees_bind ((he.agrees p q _ h).mono (fun e e' p' q' hb => ?_) fun _ _ h => h)
  obtain ⟨hk, rfl, hin⟩ := hb
  refine agrees_bind ((optionalSemicolon_agrees hin).mono (fun _ _ p q hs => ?_) fun _ _ h => h)
  rw [agrees_pure]
  exact ⟨by rw [h.current_eq_tree hk]; rfl, hs⟩

section Dispatch

variable {σ : Type} [TokenStream σ] {expr : Nat → Parse σ Node} {p : Parser σ}

theorem run_statement_of_let (hk : p.current.kind = .letKeyword) :
    (statement expr).run p = (letStatement expr).run p := by
  rw [statement, run_bind_of_done (run_current p), hk]

theorem run_statement_of_return (hk : p.current.kind = .returnKeyword) :
    (statement expr).run p = (returnStatement expr).run p := by
  rw [statement, run_bind_of_done (run_current p), hk]

theorem run_statement_of_ne (hlet : p.current.kind ≠ .letKeyword)
    (hreturn : p.current.kind ≠ .returnKeyword) :
    (statement expr).run p = (expressionStatement expr).run p := by
  rw [statement, run_bind_of_done (run_current p)]
  split
  · next hk => exact absurd hk hlet
  · next hk => exact absurd hk hreturn
  · rfl

/-- A statement that begins with a token nothing begins with. -/
theorem run_statement_of_no_rule (N : Nat) (hlet : p.current.kind ≠ .letKeyword)
    (hreturn : p.current.kind ≠ .returnKeyword)
    (hnone : prefixRule (expression (σ := σ) N) (N + 1) p.current.kind = none) :
    (statement (expression (N + 1))).run p = .rejected (p.report (.noExpression p.current)) := by
  rw [run_statement_of_ne hlet hreturn, expressionStatement, run_bind_of_done (run_current p),
    expression]
  refine run_bind_of_rejected ?_
  rw [run_bind_of_done (run_current p), hnone]
  rfl

end Dispatch

/-- **A statement** is read alike on both sides, wherever it begins. -/
theorem statement_agrees (he : c.Readers expr expr') (h : c.Within p q) :
    ((statement expr).run p).Agrees c.Stated c.Within ((statement expr').run q) := by
  have hiff (k : TokenKind) (hk : k.Inner) : p.current.kind = k ↔ q.current.kind = k :=
    h.current_kind_iff hk.1 hk.2.1
  by_cases hlet : q.current.kind = .letKeyword
  · have hin : c.Inside p q := h.inside (by simp [hlet]) (by simp [hlet])
    rw [run_statement_of_let ((hiff _ (by decide)).2 hlet), run_statement_of_let hlet]
    exact letStatement_agrees he hin (by simp [hlet])
  · by_cases hreturn : q.current.kind = .returnKeyword
    · have hin : c.Inside p q := h.inside (by simp [hreturn]) (by simp [hreturn])
      rw [run_statement_of_return ((hiff _ (by decide)).2 hreturn),
        run_statement_of_return hreturn]
      exact returnStatement_agrees he hin (by simp [hreturn])
    · rw [run_statement_of_ne (fun hk => hlet ((hiff _ (by decide)).1 hk))
        (fun hk => hreturn ((hiff _ (by decide)).1 hk)), run_statement_of_ne hlet hreturn]
      exact expressionStatement_agrees he h

/-! ### Skipping the rest of a rejected statement -/

section Skipping

variable {σ : Type} [TokenStream σ] {p : Parser σ} {depth : Nat}

theorem run_skipRound_of_eof (h : p.current.kind = .eof) :
    (skipRound depth).run p = .done (.stop false) p := by
  unfold skipRound
  rw [run_bind_of_done (run_current p), run_bind_of_done (run_peek p),
    run_bind_of_done (run_onClosed p), if_pos h]
  rfl

theorem run_skipRound_of_stray (h : p.current.kind = .rightBrace) (ho : p.onClosed = false) :
    (skipRound 0).run p = .done (.stop true) p := by
  rw [skipRound, run_bind_of_done (run_current p), run_bind_of_done (run_peek p),
    run_bind_of_done (run_onClosed p), if_neg (by simp [h]), if_neg (by simp [h]),
    if_pos ⟨h, ho⟩]
  rfl

theorem run_skipRound_of_semicolon (h : p.current.kind = .semicolon) :
    (skipRound 0).run p = .done (.stop false) p := by
  rw [skipRound, run_bind_of_done (run_current p), run_bind_of_done (run_peek p),
    run_bind_of_done (run_onClosed p), if_neg (by simp [h]), if_neg (by simp [h]),
    if_neg (by simp [h]), if_pos ⟨rfl, .inl h⟩]
  rfl

end Skipping

omit [LawfulTokenStream σ] [LawfulTokenStream τ] in
/-- At the edge, no group is open that skipping has entered. -/
theorem skipRound_agrees_edge {R : Parser σ → Parser τ → Prop} {depth : Nat}
    (h : c.InStep [] p q) (hdepth : ¬ c.Final → depth ≤ 0) :
    ((skipRound depth).run p).Agrees
      (fun x y p q =>
        Round.Agrees (fun d d' => c.Skips d d' p q) (fun b b' => c.Halted b b' p q) x y)
      R ((skipRound depth).run q) := by
  have hp : p.current = c.note c.edge := by
    rw [Within.current_eq ⟨[], h⟩, h.current_of_nil]
  have hq : q.current = c.edge := h.current_of_nil
  by_cases hf : c.Final
  · rw [run_skipRound_of_eof (hp ▸ hf.2), run_skipRound_of_eof (hq ▸ hf.1)]
    exact .inl ⟨rfl, .inl ⟨[], h, .inr hf⟩⟩
  · obtain rfl : depth = 0 := Nat.le_zero.1 (hdepth hf)
    rcases c.edge_kind with hk | hk
    · -- On the left this is a brace that closes a group around the statement.
      have hnote : (c.note c.edge).kind = .rightBrace :=
        (c.note_of_eof _ hk).resolve_left fun he => hf ⟨hk, he⟩
      have honClosed : p.onClosed = false := by
        rw [Within.onClosed_eq ⟨[], h⟩]
        exact (h.behind rfl).onClosed
      rw [run_skipRound_of_stray (hp ▸ hnote) honClosed, run_skipRound_of_eof (hq ▸ hk)]
      exact .inr ⟨rfl, rfl, hf, hk, h⟩
    · -- The semicolon ends the statement on both sides.
      have hnote : (c.note c.edge).kind = .semicolon :=
        (kind_note_eq_iff (by decide) (by decide)).2 hk
      rw [run_skipRound_of_semicolon (hp ▸ hnote), run_skipRound_of_semicolon (hq ▸ hk)]
      exact .inl ⟨rfl, .inr ⟨hk, h⟩⟩

/-- Before the edge, the two sides see the same. -/
theorem skipRound_agrees {R : Parser σ → Parser τ → Prop} {depth depth' : Nat}
    (h : c.Skips depth depth' p q) :
    ((skipRound depth).run p).Agrees
      (fun x y p q =>
        Round.Agrees (fun d d' => c.Skips d d' p q) (fun b b' => c.Halted b b' p q) x y)
      R ((skipRound depth').run q) := by
  obtain ⟨rfl, hown, ts, h, hdepth⟩ := h
  cases ts with
  | nil => exact skipRound_agrees_edge h hdepth
  | cons t ts =>
    have hin : c.Inside p q := ⟨t :: ts, h, .inl (List.cons_ne_nil t ts)⟩
    have ht : q.current = t := h.current_of_cons
    have he : q.current.kind ≠ .eof := ht ▸ h.ne_eof_of_cons
    have hpeek : (p.peek.kind = .rightBrace ∨ p.peek.kind = .eof) ↔
        (q.peek.kind = .rightBrace ∨ q.peek.kind = .eof) := by
      rw [hin.peek_eq]
      exact note_closes_iff
    have hbehind : q.advance.Behind := h.abreast.advance
    simp only [skipRound, agrees_current, agrees_peek, agrees_onClosed, hin.current_kind,
      hin.within.onClosed_eq, hpeek]
    rw [if_neg he, if_neg he]
    by_cases hl : q.current.kind = .leftBrace
    · -- A group is entered, and it is closed before the edge.
      rw [if_pos hl, if_pos hl]
      refine ⟨rfl, .inr hbehind, ts, h.advance, fun hf => ?_⟩
      have hle := hdepth hf
      have hpos := (h.sealed hf).1 (ht ▸ hl)
      rw [strays_cons_of_leftBrace (ht ▸ hl)] at hle
      omega
    rw [if_neg hl, if_neg hl]
    by_cases hr : q.current.kind = .rightBrace ∧ q.onClosed = false
    · -- A brace closes the innermost group, or is one that must not be passed.
      rw [if_pos hr, if_pos hr]
      match depth with
      | 0 => exact .inl ⟨rfl, .inl hin⟩
      | 1 => exact .inl ⟨rfl, .inl hin⟩
      | depth + 2 =>
        refine ⟨rfl, .inr hbehind, ts, h.advance, fun hf => ?_⟩
        have hle := hdepth hf
        rw [strays_cons_of_rightBrace (ht ▸ hr.1)] at hle
        omega
    rw [if_neg hr, if_neg hr]
    by_cases hs : depth = 0 ∧
        (q.current.kind = .semicolon ∨ q.peek.kind = .rightBrace ∨ q.peek.kind = .eof)
    · -- The statement ends here.
      rw [if_pos hs, if_pos hs]
      exact .inl ⟨rfl, .inl hin⟩
    · -- Any other token is passed.
      rw [if_neg hs, if_neg hs]
      refine ⟨rfl, .inr hbehind, ts, h.advance, fun hf => ?_⟩
      have hle := hdepth hf
      by_cases hk : q.current.kind = .rightBrace
      · -- A brace of the statement's own is passed only where skipping begins.
        rcases hown with hzero | hb
        · omega
        · exact absurd ⟨hk, hb.onClosed⟩ hr
      · rwa [strays_cons_of_ne (ht ▸ hl) (ht ▸ hk)] at hle

theorem synchronize_agrees {R : Parser σ → Parser τ → Prop} (h : c.Within p q)
    (bound bound' : Nat) :
    ((synchronize bound).run p).Agrees c.Halted R ((synchronize bound').run q) := by
  obtain ⟨ts, h⟩ := h
  exact agrees_rounds c.Skips (fun _ _ _ _ h => skipRound_agrees h)
    ⟨rfl, .inl rfl, ts, h, fun _ => Nat.zero_le _⟩ bound bound'

/-! ### Sequences of statements -/

omit [LawfulTokenStream σ] [LawfulTokenStream τ] in
theorem apart_of_semicolon (hk : c.edge.kind = .semicolon) (h : c.InStep [] p q) :
    c.Apart p.advance q.advance :=
  ⟨fun hf => absurd (hk.symm.trans hf.1) (by decide), p, q, h, rfl, .inl ⟨hk, rfl⟩⟩

/-- One round of a sequence of statements. The two sides stay in step, unless they have come to the
edge. The left side may have read other statements before. -/
theorem statementsRound_agrees (he : c.Readers expr expr') (h : c.Within p q) (hb : q.Behind)
    {ends ends' : TokenKind → Bool} (hends : ends p.current.kind = ends' q.current.kind)
    (hbrace : ends .rightBrace = ends' .rightBrace ∨ strays q.upcoming = 0)
    (hedge : ¬ c.Final → c.edge.kind = .eof → ends .rightBrace = true) (front before : List Node)
    (fuel fuel' : Nat) {R : Parser σ → Parser τ → Prop} :
    ((statementsRound expr fuel ends (front ++ Node.mapTokensEach c.tree before)).run p).Agrees
      (fun x y p' q' => Round.Agrees
        (fun ss ss' => ss = front ++ Node.mapTokensEach c.tree ss' ∧
          (c.Within p' q' ∨ c.Apart p' q'))
        (fun ss ss' => ss = front ++ Node.mapTokensEach c.tree ss' ∧ p' = p ∧ q' = q) x y) R
      ((statementsRound expr' fuel' ends' before).run q) := by
  simp only [statementsRound, agrees_current]
  rw [hends]
  by_cases hstop : ends' q.current.kind = true
  · rw [if_pos hstop, if_pos hstop]
    exact ⟨rfl, rfl, rfl⟩
  rw [if_neg hstop, if_neg hstop]
  refine agrees_bind (agrees_attempt (((statement_agrees he h).and_meets
    (statement_meets he.advances h.genuine_right hb (.inl trivial))).mono ?_ ?_))
  · -- The statement is read.
    rintro s s' p' q' ⟨⟨rfl, hended⟩, -⟩
    simp only [agrees_advance, agrees_pure]
    refine ⟨by rw [Node.mapTokensEach_append, List.append_assoc]; rfl, ?_⟩
    rcases hended with hin | ⟨hk, hedge⟩
    · exact .inl hin.advance
    · exact .inr (apart_of_semicolon hk hedge)
  · -- The statement is dropped.
    rintro p' q' ⟨hwithin, hgives⟩
    have hdrop : Parser.GivesUp q q'.drop := hgives.imp (fun h => { h with }) fun h => { h with }
    refine agrees_bind (((synchronize_agrees hwithin.drop fuel fuel').and_meets
      (synchronize_meets (R := fun _ => True) hdrop (.inl trivial))).mono ?_ fun _ _ h => h.1)
    rintro b b' r r' ⟨hhalted, hskipped⟩
    rcases hhalted with ⟨rfl, hended⟩ | ⟨rfl, rfl, hf, hk, hinstep⟩
    · have hiff : (b = true ∧ ends .rightBrace = true) ↔ (b = true ∧ ends' .rightBrace = true) := by
        rcases hbrace with heq | hnone
        · rw [heq]
        · have hb : b = false := hskipped.eq_false hnone
          simp [hb]
      by_cases houter : b = true ∧ ends' .rightBrace = true
      · rw [if_pos (hiff.2 houter), if_pos houter]
        refine ⟨rfl, .inl ?_⟩
        rcases hended with hin | ⟨-, hinstep⟩
        · exact hin.within
        · exact ⟨[], hinstep⟩
      · rw [if_neg fun h => houter (hiff.1 h), if_neg houter]
        refine ⟨rfl, ?_⟩
        rcases hended with hin | ⟨hk, hinstep⟩
        · exact .inl hin.advance
        · exact .inr (apart_of_semicolon hk hinstep)
    · rw [if_pos ⟨rfl, hedge hf hk⟩, if_neg (by simp)]
      exact ⟨rfl, .inr ⟨hf, r, r', hinstep, rfl, .inr ⟨hk, rfl⟩⟩⟩

/-- The same round, and what it leaves between the statements on the right. -/
theorem statementsRound_agrees_between (he : c.Readers expr expr') (h : c.Within p q)
    (hb : q.Behind) {ends ends' : TokenKind → Bool} (heof : ends' .eof = true)
    (hends : ends p.current.kind = ends' q.current.kind)
    (hbrace : ends .rightBrace = ends' .rightBrace ∨ strays q.upcoming = 0)
    (hedge : ¬ c.Final → c.edge.kind = .eof → ends .rightBrace = true) (front before : List Node)
    (fuel fuel' : Nat) {R : Parser σ → Parser τ → Prop} :
    ((statementsRound expr fuel ends (front ++ Node.mapTokensEach c.tree before)).run p).Agrees
      (fun x y p' q' => Round.Agrees
        (fun ss ss' => ss = front ++ Node.mapTokensEach c.tree ss' ∧
          (c.Within p' q' ∨ c.Apart p' q') ∧ Parser.Between ends' q q')
        (fun ss ss' => (ss = front ++ Node.mapTokensEach c.tree ss' ∧ p' = p ∧ q' = q) ∧
          ends' q.current.kind = true) x y) R
      ((statementsRound expr' fuel' ends' before).run q) := by
  have hmeets := statementsRound_meets (R := fun _ => True) he.advances (Nat.zero_le fuel') heof
    before h.genuine_right hb (.inl trivial)
  refine ((statementsRound_agrees he h hb hends hbrace hedge front before fuel fuel').and_meets
    hmeets).mono (fun x y p' q' hround => ?_) fun _ _ h => h.1
  obtain ⟨hround, hright⟩ := hround
  cases x <;> cases y
  case next.next => exact ⟨hround.1, hround.2, hright.1⟩
  case stop.stop => exact ⟨hround, hright.2⟩
  all_goals exact hround.elim

omit [LawfulTokenStream σ] in
/-- Once apart, no group is left that was opened before the edge. -/
theorem strays_of_apart (h : c.Apart p q) : strays q.upcoming = c.base := by
  obtain ⟨hf, p', q', h, rfl, -⟩ := h
  have hbase : strays q'.upcoming = c.base := by rw [h.strays_eq hf, strays_nil, Nat.zero_add]
  have hq : q'.current = c.edge := h.current_of_nil
  rcases c.edge_kind with hk | hk
  · rw [h.genuine_right.upcoming_advance_of_eof (hq ▸ hk), hbase]
  · have hplain : q'.current.kind.Plain := by
      rw [hq, hk]
      decide
    rw [← hbase, Parser.strays_upcoming_of_plain hplain]

/-! ### Blocks -/

/-- Behind an opening brace, its closing brace is ahead, and before the edge. -/
theorem base_lt_strays (h : c.Inside p q) (hk : q.current.kind = .leftBrace) :
    c.Final ∨ c.base < strays q.advance.upcoming := by
  obtain ⟨ts, h, hts⟩ := h
  by_cases hf : c.Final
  · exact .inl hf
  · cases ts with
    | nil => exact absurd rfl (hts.resolve_right hf)
    | cons t ts =>
      have hpos := (h.sealed hf).1 (h.current_of_cons ▸ hk)
      rw [h.advance.strays_eq hf]
      exact .inr (by omega)

/-- **A block** is read alike on both sides. It ends before the edge, on its own brace; only at the
end of the input on both sides may it end there. -/
theorem block_agrees (he : c.Readers expr expr') (h : c.Inside p q)
    (hk : q.current.kind = .leftBrace) (fuel fuel' : Nat) :
    ((block expr fuel).run p).Agrees c.Built c.Within ((block expr' fuel').run q) := by
  have habreast : q.Abreast := by
    obtain ⟨ts, h, -⟩ := h
    exact h.abreast
  have hstrays := base_lt_strays h hk
  simp only [block, agrees_current, agrees_advance]
  -- Between the statements of the block, both are before the edge.
  have hbody : ((statements expr fuel endsBlock).run p.advance).Agrees
      (fun ss ss' p' q' => c.BuiltEach ss ss' p' q' ∧ q'.Behind) c.Within
      ((statements expr' fuel' endsBlock).run q.advance) := by
    refine agrees_rounds (fun ss ss' p' q' => c.BuiltEach ss ss' p' q' ∧
      Parser.Between endsBlock q.advance q') (fun ss ss' p' q' hI => ?_) ?_ fuel fuel'
    · obtain ⟨⟨rfl, hin⟩, hbetween⟩ := hI
      refine (statementsRound_agrees_between he hin.within hbetween.behind rfl
        (congrArg endsBlock hin.current_kind) (.inl rfl) (fun _ _ => rfl) [] ss' fuel fuel').mono
        (fun x y r r' hround => hround.mono ?_ ?_) fun _ _ h => h
      · rintro ss ss' ⟨rfl, hplace, hround⟩
        have hbetween' := hbetween.trans hround
        have hstrays' : c.Final ∨ c.base < strays r'.upcoming := by
          rw [hbetween'.strays_eq (.inl rfl)]
          exact hstrays
        refine ⟨⟨rfl, ?_⟩, hbetween'⟩
        rcases hplace with hwithin | hapart
        · exact hwithin.inside_of_strays hstrays'
        · have hlt := hstrays'.resolve_left hapart.1
          rw [strays_of_apart hapart] at hlt
          exact absurd hlt (Nat.lt_irrefl _)
      · rintro ss ss' ⟨⟨rfl, rfl, rfl⟩, -⟩
        exact ⟨⟨rfl, hin⟩, hbetween.behind⟩
    · exact ⟨⟨rfl, h.advance.inside_of_strays hstrays⟩, h.within.genuine_right.advance,
        List.suffix_rfl, habreast.advance, fun _ => rfl⟩
  refine agrees_bind (hbody.mono (fun ss ss' p' q' hb => ?_) fun _ _ h => h)
  obtain ⟨⟨rfl, hin⟩, hbehind⟩ := hb
  simp only [agrees_closeBlock, agrees_pure]
  exact ⟨by rw [h.within.current_eq_tree (by simp [hk])]; rfl, hin.closeBlock hbehind⟩

/-- A block where a rule expects one. -/
theorem expect_block_agrees (he : c.Readers expr expr') (h : c.Inside p q) (fuel fuel' : Nat) :
    ((expect .leftBrace).run p).Agrees
      (fun _ _ p q => ((block expr fuel).run p).Agrees c.Built c.Within ((block expr' fuel').run q))
      c.Within ((expect .leftBrace).run q) :=
  expect_agrees h (by decide) fun hin hk => block_agrees he hin hk fuel fuel'

/-! ### Conditionals and functions -/

theorem alternative_agrees (he : c.Readers expr expr') (h : c.Inside p q) (fuel fuel' : Nat) :
    ((alternative expr fuel).run p).Agrees
      (fun o o' p q => o = o'.map (Node.mapTokens c.tree) ∧ c.Inside p q) c.Within
      ((alternative expr' fuel').run q) := by
  simp only [alternative, agrees_peek]
  refine agrees_ite_peek h (by decide) (by decide) (fun hq => ?_) fun _ => ?_
  · have hin : c.Inside p.advance q.advance := h.advance_inside hq (by decide) (by decide)
    simp only [agrees_advance]
    refine agrees_bind ((expect_block_agrees he hin fuel fuel').mono (fun _ _ p q hb => ?_)
      fun _ _ h => h)
    refine agrees_bind (hb.mono (fun b b' p q hb => ?_) fun _ _ h => h)
    rw [agrees_pure]
    exact ⟨congrArg some hb.1, hb.2⟩
  · exact ⟨rfl, h⟩

theorem conditional_agrees (he : c.Readers expr expr') (h : c.Inside p q)
    (hk : q.current.kind ≠ .eof) (fuel fuel' : Nat) :
    ((conditional expr fuel).run p).Agrees c.Built c.Within ((conditional expr' fuel').run q) := by
  have htoken : p.current = c.tree q.current := h.within.current_eq_tree hk
  simp only [conditional, agrees_current]
  refine agrees_bind (expect_agrees h (by decide) fun hin _ => ?_)
  simp only [agrees_advance]
  -- The condition.
  refine agrees_bind ((Readers.next he hin _).mono (fun e e' p q hcond => ?_) fun _ _ h => h)
  refine agrees_bind (expect_agrees hcond.2 (by decide) fun hin _ => ?_)
  -- The blocks.
  refine agrees_bind ((expect_block_agrees he hin fuel fuel').mono (fun _ _ p q hb => ?_)
    fun _ _ h => h)
  refine agrees_bind (hb.mono (fun b b' p q hb => ?_) fun _ _ h => h)
  refine agrees_bind ((alternative_agrees he hb.2 fuel fuel').mono (fun o o' p q ho => ?_)
    fun _ _ h => h)
  rw [agrees_pure]
  refine ⟨?_, ho.2⟩
  rw [htoken, hcond.1, hb.1, ho.1]
  cases o' <;> rfl

theorem parametersRounds_agrees (names : List Node) (bound bound' : Nat) (h : c.Inside p q) :
    ((rounds parametersRound bound (Node.mapTokensEach c.tree names)).run p).Agrees
      c.BuiltEach c.Within ((rounds parametersRound bound' names).run q) := by
  refine agrees_rounds c.BuiltEach (fun names names' p q hI => ?_) ⟨rfl, h⟩ bound bound'
  obtain ⟨rfl, h⟩ := hI
  simp only [parametersRound, agrees_peek]
  refine agrees_ite_peek h (by decide) (by decide) (fun hq => ?_) fun _ => ?_
  · have hin : c.Inside p.advance q.advance := h.advance_inside hq (by decide) (by decide)
    simp only [agrees_advance]
    refine agrees_bind (expect_agrees hin (by decide) fun hname hkind => ?_)
    have hne : q.advance.advance.current.kind ≠ .eof := by
      rw [Parser.current_advance, hkind]
      decide
    refine agrees_bind ((identifier_agrees hname hne).mono (fun n n' p q hn => ?_)
      fun _ _ h => h)
    rw [agrees_pure]
    exact ⟨by rw [hn.1, Node.mapTokensEach_append]; rfl, hn.2⟩
  · exact ⟨rfl, h⟩

theorem parameters_agrees (h : c.Inside p q) (fuel fuel' : Nat) :
    ((parameters fuel).run p).Agrees c.BuiltEach c.Within ((parameters fuel').run q) := by
  simp only [parameters, agrees_peek]
  refine agrees_ite_peek h (by decide) (by decide) (fun hq => ?_) fun _ => ?_
  · -- There are no parameters.
    exact ⟨rfl, h.advance_inside hq (by decide) (by decide)⟩
  · refine agrees_bind (expect_agrees h (by decide) fun hname hkind => ?_)
    refine agrees_bind ((identifier_agrees hname (show q.peek.kind ≠ .eof by simp [hkind])).mono
      (fun n n' p q hn => ?_) fun _ _ h => h)
    obtain ⟨rfl, hin⟩ := hn
    refine agrees_bind ((parametersRounds_agrees [n'] fuel fuel' hin).mono
      (fun ns ns' p q hb => ?_) fun _ _ h => h)
    exact agrees_bind (expect_agrees hb.2 (by decide) fun hin _ => ⟨hb.1, hin⟩)

theorem function_agrees (he : c.Readers expr expr') (h : c.Inside p q)
    (hk : q.current.kind ≠ .eof) (fuel fuel' : Nat) :
    ((function expr fuel).run p).Agrees c.Built c.Within ((function expr' fuel').run q) := by
  have htoken : p.current = c.tree q.current := h.within.current_eq_tree hk
  simp only [function, agrees_current]
  refine agrees_bind (expect_agrees h (by decide) fun hin _ => ?_)
  refine agrees_bind ((parameters_agrees hin fuel fuel').mono (fun ns ns' p q hns => ?_)
    fun _ _ h => h)
  refine agrees_bind ((expect_block_agrees he hns.2 fuel fuel').mono (fun _ _ p q hb => ?_)
    fun _ _ h => h)
  refine agrees_bind (hb.mono (fun b b' p q hb => ?_) fun _ _ h => h)
  rw [agrees_pure]
  exact ⟨by rw [htoken, hns.1, hb.1]; rfl, hb.2⟩

/-! ### Expressions -/

/-- The rules for the first token of an expression. -/
theorem prefixRule_agrees (he : c.Readers expr expr') (h : c.Inside p q) (fuel fuel' : Nat) :
    match prefixRule expr fuel q.current.kind, prefixRule expr' fuel' q.current.kind with
    | some rule, some rule' => (rule.run p).Agrees c.Built c.Within (rule'.run q)
    | none, none => True
    | _, _ => False := by
  cases hk : q.current.kind
  case identifier => exact identifier_agrees h (by simp [hk])
  case int => exact integer_agrees h (by simp [hk])
  case trueKeyword => exact boolean_agrees h (by simp [hk])
  case falseKeyword => exact boolean_agrees h (by simp [hk])
  case string => exact string_agrees h (by simp [hk])
  case bang => exact unary_agrees he h (by simp [hk])
  case minus => exact unary_agrees he h (by simp [hk])
  case leftParen => exact grouped_agrees he h
  case leftBracket => exact array_agrees he h (by simp [hk]) fuel fuel'
  case ifKeyword => exact conditional_agrees he h (by simp [hk]) fuel fuel'
  case functionKeyword => exact function_agrees he h (by simp [hk]) fuel fuel'
  all_goals trivial

/-- The rules for the first token behind a left operand. -/
theorem infixRule_agrees (he : c.Readers expr expr') (h : c.Inside p q) (left : Node)
    (fuel fuel' : Nat) :
    match infixRule expr fuel q.current.kind, infixRule expr' fuel' q.current.kind with
    | some rule, some rule' =>
      ((rule (left.mapTokens c.tree)).run p).Agrees c.Built c.Within ((rule' left).run q)
    | none, none => True
    | _, _ => False := by
  cases hk : q.current.kind
  case leftParen => exact call_agrees he h (by simp [hk]) left fuel fuel'
  case plus => exact binary_agrees he h (by simp [hk]) left
  case minus => exact binary_agrees he h (by simp [hk]) left
  case star => exact binary_agrees he h (by simp [hk]) left
  case slash => exact binary_agrees he h (by simp [hk]) left
  case equal => exact binary_agrees he h (by simp [hk]) left
  case notEqual => exact binary_agrees he h (by simp [hk]) left
  case lessThan => exact binary_agrees he h (by simp [hk]) left
  case greaterThan => exact binary_agrees he h (by simp [hk]) left
  all_goals trivial

theorem operatorsRounds_agrees (he : c.Readers expr expr') (h : c.Inside p q) (left : Node)
    (floor fuel fuel' bound bound' : Nat) :
    ((rounds (operatorsRound expr fuel floor) bound (left.mapTokens c.tree)).run p).Agrees
      c.Built c.Within ((rounds (operatorsRound expr' fuel' floor) bound' left).run q) := by
  refine agrees_rounds c.Built (fun left left' p q hI => ?_) ⟨rfl, h⟩ bound bound'
  obtain ⟨rfl, h⟩ := hI
  have hcond : (p.peek.kind ≠ .semicolon ∧ floor < p.peek.kind.level.power) ↔
      (q.peek.kind ≠ .semicolon ∧ floor < q.peek.kind.level.power) := by
    rw [h.peek_eq, level_note, ne_eq, kind_note_eq_iff (by decide) (by decide)]
  simp only [operatorsRound, agrees_peek]
  by_cases hc : q.peek.kind ≠ .semicolon ∧ floor < q.peek.kind.level.power
  · rw [if_pos (hcond.2 hc), if_pos hc]
    by_cases heof : q.peek.kind = .eof
    · -- At the end there is no operator, nor is a brace on the left one.
      have hp : infixRule expr fuel p.peek.kind = none := by
        rw [h.peek_eq]
        rcases c.note_of_eof _ heof with hk | hk <;> rw [hk] <;> rfl
      rw [hp, heof]
      exact ⟨rfl, h⟩
    · have hin : c.Inside p.advance q.advance := h.advance.inside heof hc.1
      have hkind : p.peek.kind = q.peek.kind := hin.current_kind
      have hrules := infixRule_agrees he hin left' fuel fuel'
      rw [hkind]
      rw [Parser.current_advance] at hrules
      cases hr : infixRule expr fuel q.peek.kind <;>
        cases hr' : infixRule expr' fuel' q.peek.kind <;> rw [hr, hr'] at hrules
      case none.none => exact ⟨rfl, h⟩
      case some.some rule rule' =>
        simp only [agrees_advance]
        exact agrees_bind hrules
      all_goals exact hrules.elim
  · rw [if_neg fun hp => hc (hcond.1 hp), if_neg hc]
    exact ⟨rfl, h⟩

/-- **Expressions keep parsers in step**, however much fuel there is on either side. -/
theorem expression_agrees (c : Comparison) (N N' : Nat) :
    c.Readers (expression (σ := σ) N) (expression (σ := τ) N') := by
  refine ⟨fun p q floor h => ?_, fun q floor hq hb _ =>
    expression_meets True N' q floor hq hb (.inl trivial)⟩
  induction N generalizing N' p q floor with
  | zero => trivial
  | succ N ih =>
    cases N' with
    | zero =>
      change Outcome.Agrees _ _ _ .outOfFuel
      cases (expression (N + 1) floor).run p <;> trivial
    | succ N' =>
      have he : c.Readers (expression (σ := σ) N) (expression (σ := τ) N') :=
        ⟨fun p q floor h => ih N' p q floor h, fun q floor hq hb _ =>
          expression_meets True N' q floor hq hb (.inl trivial)⟩
      simp only [expression, agrees_current]
      by_cases hedge : q.current.kind = .eof ∨ q.current.kind = .semicolon
      · -- This may be the edge. No expression begins with it on either side.
        have hq : prefixRule (expression (σ := τ) N') (N' + 1) q.current.kind = none := by
          rcases hedge with hk | hk <;> rw [hk] <;> rfl
        have hp : prefixRule (expression (σ := σ) N) (N + 1) p.current.kind = none := by
          rw [h.current_eq]
          rcases kind_note (c := c) q.current with hk | ⟨-, hk⟩
          · rcases hedge with hk' | hk' <;> rw [hk, hk'] <;> rfl
          · rw [hk]
            rfl
        rw [hp, hq, agrees_reject, h.current_eq]
        exact h.report (.noExpression q.current)
      · have hne : q.current.kind ≠ .eof := fun hk => hedge (.inl hk)
        have hin : c.Inside p q := h.inside hne fun hk => hedge (.inr hk)
        have hrules := prefixRule_agrees he hin (N + 1) (N' + 1)
        rw [hin.current_kind]
        cases hr : prefixRule (expression (σ := σ) N) (N + 1) q.current.kind <;>
          cases hr' : prefixRule (expression (σ := τ) N') (N' + 1) q.current.kind <;>
          rw [hr, hr'] at hrules
        case none.none =>
          rw [agrees_reject, h.current_eq]
          exact h.report (.noExpression q.current)
        case some.some rule rule' =>
          refine agrees_bind (hrules.mono (fun left left' p' q' hb => ?_) fun _ _ h => h)
          obtain ⟨rfl, hin'⟩ := hb
          exact (operatorsRounds_agrees he hin' left' floor (N + 1) (N' + 1) (N + 1)
            (N' + 1)).mono (fun _ _ _ _ hb => ⟨hne, hb⟩) fun _ _ h => h
        all_goals exact hrules.elim

end Parse

end MonkeySyntax
