import MonkeySyntax.Proofs.Lockstep
import MonkeySyntax.Proofs.Reachable
import MonkeySyntax.Proofs.Reading

/-!
# Blocks end at their own brace

Whatever is wrong inside a block, the block ends on the closing brace that matches its opening one,
and at the end of the input if there is none. And what is inside is read as if it were a program of
its own, whose input ends where the closing brace stands.

The second half compares two loops. The loop of the block stops on a closing brace, the loop of the
program at the end of the input; the edge of the comparison is the one on the left and the other on
the right. As the tokens in between are balanced, skipping never stops on a closing brace among
them. It may stop on the edge, however, and then the two sides part: the block has to look at the
brace again, while the program moves on, and stays at the end. One round later both have stopped.
-/

namespace MonkeySyntax

open TokenStream (toList)

/-- The end of the input, where the token stands. -/
def Token.asEnd (t : Token) : Token :=
  ⟨.eof, "", t.line, t.col⟩

/-- The token itself in the place of the end of the input. -/
def Token.insteadOfEnd (closing t : Token) : Token :=
  if t.kind = .eof then closing else t

/-- The tokens as a program of their own, which ends where the closing brace stands. -/
def TokenList.upTo (inside : List Token) (closing : Token) : TokenList :=
  ⟨inside, closing.asEnd, rfl⟩

theorem TokenList.toList_upTo {inside : List Token} {closing : Token}
    (h : ∀ t ∈ inside, t.kind ≠ .eof) :
    toList (TokenList.upTo inside closing) = inside ++ [closing.asEnd] := by
  induction inside with
  | nil => exact TokenStream.toList_of_eof (s := TokenList.upTo [] closing) rfl
  | cons t ts ih =>
    have ht : t.kind ≠ .eof := h t List.mem_cons_self
    have hnext : TokenStream.next (TokenList.upTo (t :: ts) closing) =
        (t, TokenList.upTo ts closing) := if_neg ht
    rw [TokenStream.toList_of_ne_eof (by rwa [hnext]), hnext,
      ih fun u hu => h u (List.mem_cons_of_mem t hu)]
    rfl

namespace Comparison

/-- The tokens up to a closing brace on the left, and on the right the same tokens as a program. -/
def enclosed {σ : Type} (p : Parser σ) (inside after : List Token) {closing : Token}
    (h : closing.kind = .rightBrace) : Comparison where
  tree := id
  note := closing.insteadOfEnd
  earlier := p.diagnostics
  offset := p.index
  stop := p.index + inside.length
  edge := closing.asEnd
  beyondLeft := after
  beyondRight := []
  looksLike := Token.LooksLike.refl
  note_eq_tree _ ht := if_neg ht
  note_of_eof _ ht := .inr (by rw [Token.insteadOfEnd, if_pos ht, h])
  edge_kind := .inl rfl

/-- On the left, the closing brace is not the end. -/
theorem not_final_enclosed {σ : Type} (p : Parser σ) (inside after : List Token) {closing : Token}
    (h : closing.kind = .rightBrace) : ¬ (enclosed p inside after h).Final := by
  intro hf
  have heof : (closing.insteadOfEnd closing.asEnd).kind = .eof := hf.2
  have hnote : closing.insteadOfEnd closing.asEnd = closing := if_pos rfl
  rw [hnote, h] at heof
  exact absurd heof (by decide)

/-- The inside of a block on the left, and on the right the same tokens as a program. -/
def ofBlock {σ : Type} (p : Parser σ) (inside after : List Token) {closing : Token}
    (h : closing.kind = .rightBrace) : Comparison where
  tree := id
  note := closing.insteadOfEnd
  earlier := p.diagnostics
  offset := p.index + 1
  stop := p.index + 1 + inside.length
  edge := closing.asEnd
  beyondLeft := after
  beyondRight := []
  looksLike := Token.LooksLike.refl
  note_eq_tree _ ht := if_neg ht
  note_of_eof _ ht := .inr (by rw [Token.insteadOfEnd, if_pos ht, h])
  edge_kind := .inl rfl

end Comparison

namespace Parse

open Comparison

variable {σ : Type} [TokenStream σ] [LawfulTokenStream σ] {p : Parser σ}
  {inside after : List Token} {closing : Token}

omit [LawfulTokenStream σ] in
theorem inStep_enclosed (hg : p.Genuine) (hb : p.Behind) (hclosing : closing.kind = .rightBrace)
    (hup : p.upcoming = inside ++ closing :: after) (hinside : ∀ t ∈ inside, t.kind ≠ .eof)
    (hbalanced : Balanced inside) :
    (enclosed p inside after hclosing).InStep inside p
      (Parser.ofStream (TokenList.upTo inside closing)) where
  upcoming_left := by
    have hmap : inside.map closing.insteadOfEnd = inside :=
      (List.map_congr_left fun t ht => if_neg (hinside t ht)).trans (List.map_id inside)
    have hedge : closing.insteadOfEnd closing.asEnd = closing := if_pos rfl
    change _ = inside.map closing.insteadOfEnd ++ closing.insteadOfEnd closing.asEnd :: after
    rw [hup, hmap, hedge]
  upcoming_right := by
    rw [Parser.upcoming_ofStream, TokenList.toList_upTo hinside]
    rfl
  genuine_left := hg
  genuine_right := Parser.genuine_ofStream _
  index_eq := (Nat.zero_add _).symm
  index_edge _ := rfl
  closed_iff i := by
    -- What the left parser has closed lies behind, and the program's has closed nothing.
    refine ⟨fun h => ?_, fun h => ?_⟩
    · obtain ⟨t, ht⟩ := h
      have hlt : i + p.index < p.index := hb _ t ht
      omega
    · obtain ⟨t, ht⟩ := h
      cases ht
  diagnostics_eq := (List.append_nil _).symm
  sealed _ := sealed_of_closes hbalanced
  abreast := (Parser.behind_ofStream _).abreast
  behind _ := Parser.behind_ofStream _

omit [LawfulTokenStream σ] in
theorem inStep_ofBlock (hg : p.Genuine) (ha : p.Abreast) (hclosing : closing.kind = .rightBrace)
    (hup : p.advance.upcoming = inside ++ closing :: after) (hinside : ∀ t ∈ inside, t.kind ≠ .eof)
    (hbalanced : Balanced inside) :
    (ofBlock p inside after hclosing).InStep inside p.advance
      (Parser.ofStream (TokenList.upTo inside closing)) :=
  inStep_enclosed hg.advance ha.advance hclosing hup hinside hbalanced

section Loop

variable {τ : Type} [TokenStream τ] [LawfulTokenStream τ] {c : Comparison}
  {expr : Nat → Parse σ Node} {expr' : Nat → Parse τ Node} {q : Parser τ}

omit [LawfulTokenStream σ] in
/-- Between statements without stray braces, the loop of a block and the loop of a program go on and
stop alike. -/
theorem endsBlock_eq_endsProgram (h : c.Within p q) (hs : strays q.upcoming = 0) :
    endsBlock p.current.kind = endsProgram q.current.kind := by
  have hne : q.current.kind ≠ .rightBrace := Parser.kind_ne_rightBrace hs
  rw [h.current_eq]
  rcases kind_note (c := c) q.current with hk | ⟨he, hr⟩
  · rw [hk]
    simp [endsBlock, endsProgram, hne]
  · rw [he, hr]
    rfl

/-- **A block and a program.** The loop of a block comes to the edge, where its closing brace
stands, with the statements and diagnostics of the program. -/
theorem statements_agrees_ofBlock (he : c.Readers expr expr') (hf : ¬ c.Final)
    (hedge : c.edge.kind = .eof) (h : c.Within p q) (hb : q.Behind) (hs : strays q.upcoming = 0)
    (fuel fuel' : Nat) {R : Parser σ → Parser τ → Prop} :
    ((statements expr fuel endsBlock).run p).Agrees
      (fun ss ss' p' q' => ss = Node.mapTokensEach c.tree ss' ∧
        ∃ q'' : Parser τ, c.InStep [] p' q'' ∧ q''.diagnostics = q'.diagnostics) R
      ((statements expr' fuel' endsProgram).run q) := by
  refine agrees_rounds (fun ss ss' (p' : Parser σ) (q' : Parser τ) =>
    ss = Node.mapTokensEach c.tree ss' ∧
    (c.Within p' q' ∧ q'.Behind ∧ strays q'.upcoming = 0 ∨ c.Apart p' q')) ?_
    ⟨(Node.mapTokensEach_nil c.tree).symm, .inl ⟨h, hb, hs⟩⟩ fuel fuel'
  rintro _ ss p q ⟨rfl, ⟨h, hb, hs⟩ | ⟨-, p', q', hinstep, rfl, hapart⟩⟩
  · -- Both are in step.
    refine (statementsRound_agrees_between he h hb rfl (endsBlock_eq_endsProgram h hs) (.inr hs)
      (fun _ _ => rfl) [] ss fuel fuel').mono (fun x y r r' hround => hround.mono ?_ ?_)
      fun _ _ h => h
    · rintro ss ss' ⟨rfl, hplace, hbetween⟩
      refine ⟨rfl, hplace.imp_left fun h => ⟨h, hbetween.behind, ?_⟩⟩
      rw [hbetween.strays_eq (.inr hs), hs]
    · rintro ss ss' ⟨⟨rfl, rfl, rfl⟩, hstop⟩
      have heof : r'.current.kind = .eof := by simpa [endsProgram] using hstop
      obtain ⟨ts, h⟩ := h
      cases ts with
      | nil => exact ⟨rfl, r', h, rfl⟩
      | cons t ts => exact absurd (h.current_of_cons ▸ heof) h.ne_eof_of_cons
  · -- The block stands on its brace, and the program is at the end already.
    have hp : p = p' := by
      rcases hapart with ⟨hk, -⟩ | ⟨-, hp⟩
      · exact absurd (hedge.symm.trans hk) (by decide)
      · exact hp
    subst hp
    have hq' : q'.current.kind = .eof := by rw [hinstep.current_of_nil, hedge]
    have hq : endsProgram q'.advance.current.kind = true := by
      rw [hinstep.genuine_right.kind_advance_of_eof hq']
      rfl
    have hbrace : (c.note c.edge).kind = .rightBrace :=
      (c.note_of_eof _ hedge).resolve_left fun he => hf ⟨hedge, he⟩
    have hp : endsBlock p.current.kind = true := by
      rw [Within.current_eq ⟨[], hinstep⟩, hinstep.current_of_nil, hbrace]
      rfl
    simp only [statementsRound, agrees_current]
    rw [if_pos hp, if_pos hq]
    exact ⟨rfl, q', hinstep, rfl⟩

end Loop

omit [LawfulTokenStream σ] in
/-- A block is as good as its statements. -/
theorem run_block (expr : Nat → Parse σ Node) (fuel : Nat) (p : Parser σ) :
    (block expr fuel).run p =
      match (statements expr fuel endsBlock).run p.advance with
      | .done body q => .done (.block p.current body) q.closeBlock
      | .rejected q => .rejected q
      | .outOfFuel => .outOfFuel := by
  rw [block, run_bind_of_done (run_current p), run_bind_of_done (run_advance p), run_bind]
  cases (statements expr fuel endsBlock).run p.advance <;> rfl

/-- What is inside a group of a stream comes before the end. -/
theorem kind_ne_eof_of_group {s : σ} {i : Nat} (h : Group (toList s) i inside closing) :
    ∀ t ∈ inside, t.kind ≠ .eof := by
  obtain ⟨after, hgroup, -⟩ := h
  intro t ht
  have hsplit := List.take_append_drop (i + 1) (toList s)
  rw [hgroup, ← List.append_assoc] at hsplit
  exact TokenStream.kind_ne_eof_of_toList_eq hsplit.symm (List.mem_append_right _ ht)

/-- A block that has a match for its opening brace. -/
theorem block_of_match {N fuel : Nat} (hg : p.Genuine) (ha : p.Abreast)
    (hup : p.advance.upcoming = inside ++ closing :: after) (hclosing : closing.kind = .rightBrace)
    (hinside : ∀ t ∈ inside, t.kind ≠ .eof) (hbalanced : Balanced inside) {body : List Node}
    {q : Parser σ}
    (hrun : (statements (expression N) fuel endsBlock).run p.advance = .done body q) :
    q.current = closing ∧ q.index = p.index + inside.length + 1 ∧
      body = (Reading.ofStream (TokenList.upTo inside closing)).program.statements ∧
      q.diagnostics = p.diagnostics ++
        (Reading.ofStream (TokenList.upTo inside closing)).diagnostics.map
          (Diagnostic.mapToken closing.insteadOfEnd) := by
  have hinstep := inStep_ofBlock hg ha hclosing hup hinside hbalanced
  have hnote : closing.insteadOfEnd closing.asEnd = closing := if_pos rfl
  have hf : ¬ (ofBlock p inside after hclosing).Final := not_final_enclosed p inside after hclosing
  have hbehind := Parser.behind_ofStream (TokenList.upTo inside closing)
  have hs : strays (Parser.ofStream (TokenList.upTo inside closing)).upcoming = 0 := by
    rw [hinstep.upcoming_right, strays_append_of_balanced hbalanced]
    rfl
  obtain ⟨body', q', hrun', -, heq⟩ :=
    Reading.exists_run (Parser.genuine_ofStream (TokenList.upTo inside closing)) hbehind
  have hagrees := statements_agrees_ofBlock (R := fun _ _ => True)
    (expression_agrees _ N (Parser.ofStream (TokenList.upTo inside closing)).fuel) hf rfl
    ⟨inside, hinstep⟩ hbehind hs fuel (Parser.ofStream (TokenList.upTo inside closing)).fuel
  obtain ⟨hbody, q'', hedge, hdiagnostics⟩ := hagrees.of_done hrun hrun'
  rw [Reading.ofStream, heq]
  refine ⟨?_, ?_, ?_, ?_⟩
  · rw [Within.current_eq ⟨[], hedge⟩, hedge.current_of_nil]
    exact hnote
  · have hstop : q.index + 0 = p.index + 1 + inside.length := hedge.index_edge hf
    omega
  · rw [hbody]
    exact Node.mapTokensEach_id body'
  · rw [hedge.diagnostics_eq, hdiagnostics]
    rfl

/-- A block without a match for its opening brace. -/
theorem block_of_no_match {q : Parser σ}
    (h : Parser.Between endsBlock p.advance q ∧ endsBlock q.current.kind = true)
    (hnone : strays p.advance.upcoming = 0) : q.current.kind = .eof := by
  rcases (endsBlock_iff _).1 h.2 with hr | he
  · have hs : strays q.upcoming = 0 := (h.1.strays_eq (.inl rfl)).trans hnone
    exact absurd hr (Parser.kind_ne_rightBrace hs)
  · exact he

/-- **A block ends at its own brace.** A run on a text comes to an opening brace and reads the block
that begins there. If the brace has a match in the text, the block ends on exactly that token; its
statements are those of the tokens in between, read as a program, and its diagnostics are those of
the program, with the closing brace in the place of the end. If the brace has no match, the block
ends at the end of the text. The block is never rejected, and it runs out of fuel only if it has not
been given as much as there are tokens to come; in a run over the whole text that never happens,
since such a run would run out of fuel as well (`Reading.exists_run`). -/
theorem block_ends_on_match (source : String) (p : Parser Scanner.Cursor)
    (hp : p.Reachable (Scanner.Cursor.ofString source)) (hk : p.current.kind = .leftBrace)
    (N fuel : Nat) :
    (block (expression N) fuel).run p = .outOfFuel ∧
        ¬ (p.advance.upcoming.length ≤ N ∧ N ≤ fuel) ∨
      ∃ body q, (block (expression N) fuel).run p = .done (.block p.current body) q ∧
        (∀ inside closing, Group (tokenize source) p.index inside closing →
          q.current = closing ∧ q.index = p.index + inside.length + 1 ∧
          body = (Reading.ofStream (TokenList.upTo inside closing)).program.statements ∧
          q.diagnostics = p.diagnostics ++
            (Reading.ofStream (TokenList.upTo inside closing)).diagnostics.map
              (Diagnostic.mapToken closing.insteadOfEnd)) ∧
        ((¬ ∃ inside closing, Group (tokenize source) p.index inside closing) →
          q.current.kind = .eof) := by
  have hg := hp.genuine
  have ha := hp.abreast
  -- What is ahead of the block is the text from the opening brace on.
  have hahead : p.advance.upcoming = (tokenize source).drop (p.index + 1) :=
    hp.upcoming_advance_eq (by simp [hk])
  have hends : ((statements (expression N) fuel endsBlock).run p.advance).Meets True
      (fun _ q => Parser.Between endsBlock p.advance q ∧ endsBlock q.current.kind = true)
      fun _ => False :=
    statements_meets (fun p floor hp hb _ => expression_meets True N p floor hp hb (.inl trivial))
      (Nat.zero_le fuel) rfl hg.advance ha.advance (.inl trivial)
  rw [run_block]
  cases hrun : (statements (expression N) fuel endsBlock).run p.advance with
  | rejected q =>
    rw [hrun] at hends
    exact hends.elim
  | outOfFuel =>
    refine .inl ⟨rfl, fun hN => ?_⟩
    -- With enough fuel, the statements come to an end.
    have hdone : ((statements (expression N) fuel endsBlock).run p.advance).Meets False
        (fun _ q => Parser.Between endsBlock p.advance q ∧ endsBlock q.current.kind = true)
        fun _ => False :=
      statements_meets (expression_meets False N) hN.2 rfl hg.advance ha.advance (.inr hN.1)
    rw [hrun] at hdone
    exact hdone
  | done body q =>
    rw [hrun] at hends
    refine .inr ⟨body, q.closeBlock, rfl, ?_, ?_⟩
    · intro inside closing hmatch
      have hinside := kind_ne_eof_of_group hmatch
      obtain ⟨after, hgroup, hclosing, hbalanced⟩ := hmatch
      rw [← hahead] at hgroup
      simpa using block_of_match hg ha hgroup hclosing hinside hbalanced hrun
    · intro hnone
      rw [Parser.current_closeBlock]
      refine block_of_no_match hends ?_
      by_contra hpos
      obtain ⟨inside, closing, after, heq, hclosing, hbalanced⟩ :=
        exists_balanced_of_strays_pos (Nat.pos_of_ne_zero hpos)
      exact hnone ⟨inside, closing, after, hahead ▸ heq, hclosing, hbalanced⟩

/-- A block with two statements that cannot be read, the second of which breaks off inside a group.
-/
def brokenBlock : String :=
  "if (x) \x7b let 1; fn(y) \x7b \x7d + \x7d z"

/-- The parser on the opening brace of this block. -/
def brokenBlockStart : Parser Scanner.Cursor :=
  (Parser.ofStream (Scanner.Cursor.ofString brokenBlock)).advance.advance.advance.advance

theorem block_ends_on_match_broken :
    brokenBlockStart.current.kind = .leftBrace ∧
    ∃ body q, (block (expression 20) 20).run brokenBlockStart =
        .done (.block brokenBlockStart.current body) q ∧
      q.current = ⟨.rightBrace, "\x7d", 1, 29⟩ ∧ q.index = 15 := by
  have hk : brokenBlockStart.current.kind = .leftBrace := by decide +kernel
  refine ⟨hk, ?_⟩
  rcases block_ends_on_match brokenBlock brokenBlockStart
    (.advance (.advance (.advance (.advance .start)))) hk 20 20 with
    ⟨-, hfuel⟩ | ⟨body, q, hrun, hmatch, -⟩
  · exact absurd ⟨by decide +kernel, Nat.le_refl 20⟩ hfuel
  · have hgroup : Group (tokenize brokenBlock) brokenBlockStart.index
        (((tokenize brokenBlock).drop 5).take 10) ⟨.rightBrace, "\x7d", 1, 29⟩ :=
      ⟨(tokenize brokenBlock).drop 16, by decide +kernel, rfl, by decide +kernel⟩
    obtain ⟨hcurrent, hindex, -⟩ := hmatch _ _ hgroup
    refine ⟨body, q, hrun, hcurrent, hindex.trans ?_⟩
    decide +kernel

end Parse

end MonkeySyntax
