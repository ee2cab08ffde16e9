import MonkeySyntax.Proofs.Meets
import MonkeySyntax.Proofs.Place

/-!
# How far an action goes

Every rule of the grammar ends, and leaves the parser on the last token of what was read or on a
token that could not be read (`Parser.EndsOn`, `Parser.StopsAt`). The theorems follow the grammar.
Each rule is entered on its first token and hands the parser from one of its parts to the next by
`EndsOn.trans`; `expression_meets` closes the recursion by induction on the fuel, and the loops end
by the number of tokens that are left.

Skipping the rest of a rejected statement ends as well (`synchronize_meets`). Standing on a closing
brace that it has not seen opened, it stops at once and says so; otherwise what it skips closes
every group that it opens. A sequence of statements therefore ends on the brace of its own block
(`statements_meets`).
-/

namespace MonkeySyntax

namespace Parse

open MonkeySyntax.Parser

variable {σ : Type} [TokenStream σ] {F : Prop} {N fuel floor : Nat}
  {expr : Nat → Parse σ Node} {p q : Parser σ}

/-- What is known of the reader of expressions that the rules are given: where there is room for the
tokens ahead, it ends in one of the two places. -/
def Advances (F : Prop) (N : Nat) (expr : Nat → Parse σ Node) : Prop :=
  ∀ p floor, p.Genuine → p.Behind → (F ∨ p.upcoming.length ≤ N) →
    ((expr floor).run p).Meets F (fun _ q => EndsOn p q) (GivesUp p)

variable [LawfulTokenStream σ]

theorem expect_meets (h : EndsOn p q) {kind : TokenKind} (hk : kind.Plain) :
    ((expect kind).run q).Meets F (fun _ r => EndsOn p r) (GivesUp p) := by
  refine meets_expect (fun hq => ?_) fun _ => ?_
  · exact h.advance (hq ▸ hk)
  · exact .inl (h.report _)

/-- **An expression inside a rule**, read behind what the rule has read so far. -/
theorem Advances.next (he : Advances F N expr) (h : EndsOn p q)
    (hF : F ∨ p.advance.upcoming.length ≤ N) (floor : Nat) :
    ((expr floor).run q.advance).Meets F (fun _ r => EndsOn p r) (GivesUp p) := by
  have hF' : F ∨ q.advance.upcoming.length ≤ N :=
    hF.imp_right fun hle => Nat.le_trans h.progress.length_le hle
  exact (he q.advance floor h.genuine.advance h.abreast.advance hF').mono
    (fun _ _ => h.trans) fun _ => h.trans_givesUp

/-! ### Operations and lists -/

section Rules

variable (he : Advances F N expr) (hp : p.Genuine) (hb : p.Behind) (hk : p.current.kind.Plain)
  (hF : F ∨ p.advance.upcoming.length ≤ N)

include he hp hb hk hF

theorem unary_meets : ((unary expr).run p).Meets F (fun _ q => EndsOn p q) (GivesUp p) := by
  simp only [unary, meets_bind, meets_current, meets_advance, meets_pure]
  exact he.next (EndsOn.refl hp hb.abreast hk) hF _

theorem binary_meets (left : Node) :
    ((binary expr left).run p).Meets F (fun _ q => EndsOn p q) (GivesUp p) := by
  simp only [binary, meets_bind, meets_current, meets_advance, meets_pure]
  exact he.next (EndsOn.refl hp hb.abreast hk) hF _

theorem grouped_meets : ((grouped expr).run p).Meets F (fun _ q => EndsOn p q) (GivesUp p) := by
  simp only [grouped, meets_bind, meets_advance, meets_pure]
  refine (he.next (EndsOn.refl hp hb.abreast hk) hF _).mono (fun inner q h => ?_) fun _ h => h
  exact expect_meets h (by decide)

omit hp hb hk in
/-- Behind its first item a list goes on, comma by comma. -/
theorem expressionsRounds_meets (hN : N ≤ fuel) (hq : EndsOn p q) (items : List Node) :
    ((rounds (expressionsRound expr) fuel items).run q).Meets F (fun _ r => EndsOn p r)
      (GivesUp p) := by
  refine meets_rounds (fun _ q => EndsOn p q) (fun q => q.advance.ahead.length)
    (fun items q hq => ?_) hq ?_
  · rw [expressionsRound, meets_bind, meets_peek]
    split
    · next hc =>
      have hc : q.advance.current.kind = .comma := hc
      have hcq : EndsOn q.advance q.advance :=
        EndsOn.refl hq.genuine.advance hq.abreast.advance.abreast (hc ▸ by decide)
      have hlt : F ∨ q.advance.advance.upcoming.length ≤ N :=
        hF.imp_right (Nat.le_trans hq.length_upcoming_le)
      simp only [meets_bind, meets_advance, meets_pure]
      refine (he.next hcq hlt _).mono (fun item r hr => ?_)
        fun _ hr => hq.trans_givesUp hr
      exact ⟨hq.trans hr, .inr (hr.length_ahead_lt (hc ▸ by decide))⟩
    · exact hq
  · exact hF.imp_right fun hle => hq.length_ahead_lt_of_le hle hN

theorem expressionList_meets (hN : N ≤ fuel) {closing : TokenKind} (hc : closing.Plain) :
    ((expressionList expr fuel closing).run p).Meets F (fun _ q => EndsOn p q) (GivesUp p) := by
  have hpp := EndsOn.refl hp hb.abreast hk
  rw [expressionList, meets_bind, meets_peek]
  split
  · next hq => exact hpp.advance (hq ▸ hc)
  · simp only [meets_bind, meets_advance, meets_pure]
    refine (he.next hpp hF _).mono (fun item q hq => ?_) fun _ h => h
    refine (expressionsRounds_meets he hF hN hq _).mono (fun items r hr => ?_) fun _ h => h
    exact expect_meets hr hc

theorem array_meets (hN : N ≤ fuel) :
    ((array expr fuel).run p).Meets F (fun _ q => EndsOn p q) (GivesUp p) := by
  simp only [array, meets_bind, meets_current, meets_pure]
  exact expressionList_meets he hp hb hk hF hN (by decide)

theorem call_meets (hN : N ≤ fuel) (callee : Node) :
    ((call expr fuel callee).run p).Meets F (fun _ q => EndsOn p q) (GivesUp p) := by
  simp only [call, meets_bind, meets_current, meets_pure]
  exact expressionList_meets he hp hb hk hF hN (by decide)

/-! ### Statements -/

omit he hp hb hk hF in
theorem optionalSemicolon_meets (hq : EndsOn p q) :
    (optionalSemicolon.run q).Meets F (fun _ r => EndsOn p r) (GivesUp p) := by
  rw [optionalSemicolon, meets_bind, meets_peek]
  split
  · next hs => exact hq.advance (hs ▸ by decide)
  · exact hq

theorem letStatement_meets :
    ((letStatement expr).run p).Meets F (fun _ q => EndsOn p q) (GivesUp p) := by
  simp only [letStatement, identifier, meets_bind, meets_current, meets_advance, meets_pure]
  -- The name and the sign of assignment, then the value.
  refine (expect_meets (EndsOn.refl hp hb.abreast hk) (by decide)).mono (fun _ q hq => ?_)
    fun _ h => h
  refine (expect_meets hq (by decide)).mono (fun _ r hr => ?_) fun _ h => h
  refine (he.next hr hF _).mono (fun _ r hr => ?_) fun _ h => h
  exact optionalSemicolon_meets hr

theorem returnStatement_meets :
    ((returnStatement expr).run p).Meets F (fun _ q => EndsOn p q) (GivesUp p) := by
  simp only [returnStatement, meets_bind, meets_current, meets_advance, meets_pure]
  refine (he.next (EndsOn.refl hp hb.abreast hk) hF _).mono (fun _ q hq => ?_) fun _ h => h
  exact optionalSemicolon_meets hq

end Rules

/-- **A statement** ends on its last token, the semicolon if there is one, or gives up. -/
theorem statement_meets (he : Advances F N expr) (hp : p.Genuine) (hb : p.Behind)
    (hF : F ∨ p.upcoming.length ≤ N) :
    ((statement expr).run p).Meets F (fun _ q => EndsOn p q) (GivesUp p) := by
  have hF' : F ∨ p.advance.upcoming.length ≤ N :=
    hF.imp_right fun hle => Nat.le_trans hp.upcoming_advance_suffix.length_le hle
  rw [statement, meets_bind, meets_current]
  split
  · next hk => exact letStatement_meets he hp hb (hk ▸ by decide) hF'
  · next hk => exact returnStatement_meets he hp hb (hk ▸ by decide) hF'
  · simp only [expressionStatement, meets_bind, meets_current, meets_pure]
    refine (he p _ hp hb hF).mono (fun _ q hq => ?_) fun _ h => h
    exact optionalSemicolon_meets hq

/-! ### Skipping the rest of a rejected statement -/

theorem skipRound_meets {R : Parser σ → Prop} {depth : Nat} (hq : Skipping p depth q) :
    ((skipRound depth).run q).Meets F
      (fun
        | .next depth', r => Skipping p depth' r ∧ r.ahead.length < q.ahead.length
        | .stop b, r => Skipped p b r) R := by
  have hstop (h : strays q.advance.upcoming = strays q.upcoming - depth) : Skipped p false q :=
    ⟨hq.genuine, hq.suffix, hq.abreast, h.trans hq.strays_eq, fun h => absurd h Bool.false_ne_true⟩
  simp only [skipRound, meets_bind, meets_current, meets_peek, meets_onClosed]
  split
  · next he =>
    -- At the end of the input, no brace is ahead for any group.
    refine hstop ?_
    rw [hq.genuine.upcoming_advance_of_eof he, upcoming_of_eof he,
      strays_cons_of_ne (he ▸ by decide) (he ▸ by decide), strays_nil, Nat.zero_sub]
  · next he =>
    split
    · next hl =>
      -- A group is entered, so one brace more is to be passed.
      refine ⟨hq.advance ?_, length_ahead_advance_lt he⟩
      rw [upcoming_of_ne_eof he, strays_cons_of_leftBrace hl]
      omega
    · next hl =>
      split
      · next hr =>
        have hs : strays q.upcoming = strays q.advance.upcoming + 1 := by
          rw [upcoming_of_ne_eof he, strays_cons_of_rightBrace hr.1]
        -- The brace is not counted by any group that was entered, or closes the last one, or one.
        split
        · refine ⟨hq.genuine, hq.suffix, hq.abreast, ?_, fun _ => ⟨hr.1, hq.abreast.behind hr.2⟩⟩
          simpa using hq.strays_eq
        · exact hstop (by omega)
        · next depth =>
          exact ⟨hq.advance (by omega), length_ahead_advance_lt he⟩
      · next hr =>
        -- A closing brace here would be one that skipping has passed, and there is none.
        have hr : q.current.kind ≠ .rightBrace := fun h => hr ⟨h, hq.not_onClosed h⟩
        have hs : strays q.upcoming = strays q.advance.upcoming :=
          strays_upcoming_of_plain ⟨he, hl, hr⟩
        split
        · next h => exact hstop (by rw [hs, h.1, Nat.sub_zero])
        · exact ⟨hq.advance (by rw [hs]), length_ahead_advance_lt he⟩

/-- A closing brace that ended a block of the statement belongs to the statement: it is skipped, and
nothing is counted. -/
theorem skipRound_meets_of_onClosed {R : Parser σ → Prop} (h : EndsOn p q)
    (hr : q.current.kind = .rightBrace) :
    ((skipRound 0).run q).Meets F
      (fun
        | .next depth, r => Skipping p depth r ∧ r.ahead.length < q.ahead.length
        | .stop b, r => Skipped p b r) R := by
  have he : q.current.kind ≠ .eof := by simp [hr]
  have hl : q.current.kind ≠ .leftBrace := by simp [hr]
  simp only [skipRound, meets_bind, meets_current, meets_peek, meets_onClosed]
  rw [if_neg he, if_neg hl, if_neg (by simp [h.onClosed hr])]
  split
  · exact ⟨h.genuine, h.suffix, h.abreast, h.strays_eq, fun h => absurd h Bool.false_ne_true⟩
  · exact ⟨⟨h.genuine.advance, h.genuine.upcoming_advance_suffix.trans h.suffix,
      h.abreast.advance.abreast, fun _ => h.abreast.advance.onClosed, h.strays_eq⟩,
      length_ahead_advance_lt he⟩

/-- **Skipping** begins where a statement has given up. It ends, and passes every group that it
enters; only a brace that closes a group around the statement stops it at once. -/
theorem synchronize_meets {R : Parser σ → Prop} (h : GivesUp p q)
    (hF : F ∨ p.upcoming.length ≤ fuel) :
    ((synchronize fuel).run q).Meets F (fun b r => Skipped p b r) R := by
  have hq : q.upcoming <:+ p.upcoming := h.elim EndsOn.suffix StopsAt.suffix
  refine meets_rounds (fun depth q => Skipping p depth q ∨ depth = 0 ∧ EndsOn p q)
    (fun q => q.ahead.length) (fun depth q hq => ?_) ?_ ?_
  · -- Only at the very start can the parser stand on a brace of the statement's own.
    have hround : ((skipRound depth).run q).Meets F
        (fun
          | .next depth', r => Skipping p depth' r ∧ r.ahead.length < q.ahead.length
          | .stop b, r => Skipped p b r) R := by
      rcases hq with hq | ⟨rfl, hq⟩
      · exact skipRound_meets hq
      · by_cases hr : q.current.kind = .rightBrace
        · exact skipRound_meets_of_onClosed hq hr
        · exact skipRound_meets (hq.skipping hr)
    refine hround.mono (fun o r hr => ?_) fun _ h => h
    cases o with
    | next depth' => exact ⟨.inl hr.1, .inr hr.2⟩
    | stop b => exact hr
  · exact h.elim (fun h => .inr ⟨rfl, h⟩) fun h => .inl h.skipping
  · refine hF.imp_right fun hle => ?_
    have hlen := hq.length_le
    rw [length_upcoming] at hlen
    omega

/-! ### Sequences of statements -/

variable {ends : TokenKind → Bool}

theorem statementsRound_meets (he : Advances F N expr) (hN : N ≤ fuel) (heof : ends .eof = true)
    {R : Parser σ → Prop} (before : List Node) (hp : p.Genuine) (hb : p.Behind)
    (hF : F ∨ p.upcoming.length ≤ N) :
    ((statementsRound expr fuel ends before).run p).Meets F
      (fun
        | .next _, q => Between ends p q ∧ q.ahead.length < p.ahead.length
        | .stop _, q => q = p ∧ ends p.current.kind = true) R := by
  rw [statementsRound, meets_bind, meets_current]
  split
  · next hk => exact ⟨rfl, hk⟩
  · next hk =>
    have hne : p.current.kind ≠ .eof := fun h => hk (h ▸ heof)
    simp only [meets_bind, meets_attempt]
    refine (statement_meets he hp hb hF).mono (fun a q hq => ?_) fun q hq => ?_
    · -- The statement is read.
      exact ⟨hq.between, length_ahead_advance_lt_of_suffix hne hq.genuine hq.suffix⟩
    · -- The statement is dropped.
      have hdrop : GivesUp p q.drop := hq.imp (fun h => { h with }) fun h => { h with }
      refine (synchronize_meets hdrop (hF.imp_right (Nat.le_trans · hN))).mono (fun b r hr => ?_)
        fun _ h => h
      split
      · next houter =>
        -- The brace is left for the next round, and it is not where this round began.
        obtain ⟨hkind, hbehind⟩ := hr.outer houter.1
        refine ⟨⟨hr.genuine, hr.suffix, hbehind, fun _ => ?_⟩, ?_⟩
        · simpa [houter.1] using hr.strays_eq
        · refine length_ahead_lt_of_suffix hr.suffix fun h => hk ?_
          rw [← h, hkind, houter.2]
      · next houter =>
        refine ⟨⟨hr.genuine.advance, hr.genuine.upcoming_advance_suffix.trans hr.suffix,
          hr.abreast.advance, fun hends => ?_⟩,
          length_ahead_advance_lt_of_suffix hne hr.genuine hr.suffix⟩
        have hb : b = false := by
          rcases hends with hends | hnone
          · exact Bool.eq_false_iff.2 fun hb => houter ⟨hb, hends⟩
          · exact hr.eq_false hnone
        simpa [hb] using hr.strays_eq

/-- **A sequence of statements** is never rejected. It ends on a token that ends it; in a block, no
brace of a group around the sequence has been passed then. -/
theorem statements_meets (he : Advances F N expr) (hN : N ≤ fuel) (heof : ends .eof = true)
    {R : Parser σ → Prop} (hp : p.Genuine) (hb : p.Behind) (hF : F ∨ p.upcoming.length ≤ N) :
    ((statements expr fuel ends).run p).Meets F
      (fun _ q => Between ends p q ∧ ends q.current.kind = true) R := by
  refine meets_rounds (fun _ q => Between ends p q) (fun q => q.ahead.length)
    (fun before q hq => ?_) ⟨hp, List.suffix_rfl, hb, fun _ => rfl⟩ ?_
  · have hF' : F ∨ q.upcoming.length ≤ N :=
      hF.imp_right fun hle => Nat.le_trans hq.suffix.length_le hle
    refine (statementsRound_meets he hN heof before hq.genuine hq.behind hF').mono
      (fun o r hr => ?_) fun _ h => h
    cases o with
    | next after => exact ⟨hq.trans hr.1, .inr hr.2⟩
    | stop body =>
      obtain ⟨rfl, hends⟩ := hr
      exact ⟨hq, hends⟩
  · refine hF.imp_right fun hle => ?_
    rw [length_upcoming] at hle
    omega

theorem endsBlock_iff (k : TokenKind) : endsBlock k = true ↔ k = .rightBrace ∨ k = .eof := by
  simp [endsBlock]

/-! ### Blocks -/

theorem block_meets (he : Advances F N expr) (hN : N ≤ fuel) {R : Parser σ → Prop}
    (hp : p.Genuine) (ha : p.Abreast) (hk : p.current.kind = .leftBrace)
    (hF : F ∨ p.advance.upcoming.length ≤ N) :
    ((block expr fuel).run p).Meets F (fun _ q => EndsOn p q) R := by
  simp only [block, meets_bind, meets_current, meets_advance, meets_closeBlock, meets_pure]
  refine (statements_meets he hN rfl hp.advance ha.advance hF).mono (fun _ q hq => ?_) fun _ h => h
  exact hq.1.closeBlock hp hk rfl ((endsBlock_iff _).1 hq.2)

/-- A block where a rule expects one, behind what the rule has read so far. -/
theorem expect_block_meets (he : Advances F N expr) (hN : N ≤ fuel) (h : EndsOn p q)
    (hF : F ∨ p.advance.upcoming.length ≤ N) :
    ((expect .leftBrace).run q).Meets F
      (fun _ r => ((block expr fuel).run r).Meets F (fun _ r => EndsOn p r) (GivesUp p))
      (GivesUp p) := by
  refine meets_expect (fun hk => ?_) fun _ => .inl (h.report _)
  have hF' : F ∨ q.advance.advance.upcoming.length ≤ N :=
    hF.imp_right (Nat.le_trans h.length_upcoming_le)
  exact (block_meets he hN h.genuine.advance h.abreast.advance.abreast hk hF').mono
    (fun _ _ => h.trans) fun _ h => h

/-! ### Conditionals and functions -/

section Rules

variable (hN : N ≤ fuel) (hp : p.Genuine) (hb : p.Behind) (hk : p.current.kind.Plain)
  (hF : F ∨ p.advance.upcoming.length ≤ N)

include hN hF

theorem alternative_meets (he : Advances F N expr) (hq : EndsOn p q) :
    ((alternative expr fuel).run q).Meets F (fun _ r => EndsOn p r) (GivesUp p) := by
  rw [alternative, meets_bind, meets_peek]
  split
  · next hk =>
    simp only [meets_bind, meets_advance, meets_pure]
    exact expect_block_meets he hN (hq.advance (hk ▸ by decide)) hF
  · exact hq

theorem parametersRounds_meets (hq : EndsOn p q) (names : List Node) :
    ((rounds parametersRound fuel names).run q).Meets F (fun _ r => EndsOn p r) (GivesUp p) := by
  refine meets_rounds (fun _ q => EndsOn p q) (fun q => q.advance.ahead.length)
    (fun names q hq => ?_) hq ?_
  · rw [parametersRound, meets_bind, meets_peek]
    split
    · next hc =>
      have hcq : EndsOn q.advance q.advance :=
        EndsOn.refl hq.genuine.advance hq.abreast.advance.abreast (p := q.advance)
          (show q.peek.kind.Plain from hc ▸ by decide)
      simp only [identifier, meets_bind, meets_advance, meets_current, meets_pure]
      exact (expect_meets hcq (by decide)).mono
        (fun _ r hr => ⟨hq.trans hr, .inr (hr.length_ahead_lt (hc ▸ by decide))⟩)
        fun _ hr => hq.trans_givesUp hr
    · exact hq
  · exact hF.imp_right fun hle => hq.length_ahead_lt_of_le hle hN

theorem parameters_meets (hq : EndsOn p q) :
    ((parameters fuel).run q).Meets F (fun _ r => EndsOn p r) (GivesUp p) := by
  rw [parameters, meets_bind, meets_peek]
  split
  · next hk => exact hq.advance (hk ▸ by decide)
  · simp only [identifier, meets_bind, meets_current, meets_pure]
    refine (expect_meets hq (by decide)).mono (fun _ q hq => ?_) fun _ h => h
    refine (parametersRounds_meets hN hF hq _).mono (fun _ q hq => ?_) fun _ h => h
    exact expect_meets hq (by decide)

include hp hb hk

theorem conditional_meets (he : Advances F N expr) :
    ((conditional expr fuel).run p).Meets F (fun _ q => EndsOn p q) (GivesUp p) := by
  simp only [conditional, meets_bind, meets_current, meets_advance, meets_pure]
  -- The condition in its parentheses, then the blocks.
  refine (expect_meets (EndsOn.refl hp hb.abreast hk) (by decide)).mono (fun _ q hq => ?_)
    fun _ h => h
  refine (he.next hq hF _).mono (fun _ q hq => ?_) fun _ h => h
  refine (expect_meets hq (by decide)).mono (fun _ q hq => ?_) fun _ h => h
  refine (expect_block_meets he hN hq hF).mono (fun _ q hq => ?_) fun _ h => h
  exact hq.mono (fun _ r hr => alternative_meets hN hF he hr) fun _ h => h

theorem function_meets (he : Advances F N expr) :
    ((function expr fuel).run p).Meets F (fun _ q => EndsOn p q) (GivesUp p) := by
  simp only [function, meets_bind, meets_current, meets_pure]
  refine (expect_meets (EndsOn.refl hp hb.abreast hk) (by decide)).mono (fun _ q hq => ?_)
    fun _ h => h
  refine (parameters_meets hN hF hq).mono (fun _ q hq => ?_) fun _ h => h
  exact expect_block_meets he hN hq hF

end Rules

/-! ### Expressions -/

omit [LawfulTokenStream σ] in
theorem plain_of_prefixRule {k : TokenKind} {rule : Parse σ Node}
    (h : prefixRule expr fuel k = some rule) : k.Plain := by
  cases k <;> first | decide | cases h

omit [LawfulTokenStream σ] in
theorem plain_of_infixRule {k : TokenKind} {rule : Node → Parse σ Node}
    (h : infixRule expr fuel k = some rule) : k.Plain := by
  cases k <;> first | decide | cases h

/-- The rules for the first token of an expression. -/
theorem prefixRule_meets (he : Advances F N expr) (hN : N ≤ fuel) (hp : p.Genuine) (hb : p.Behind)
    {rule : Parse σ Node} (hr : prefixRule expr fuel p.current.kind = some rule)
    (hF : F ∨ p.advance.upcoming.length ≤ N) :
    (rule.run p).Meets F (fun _ q => EndsOn p q) (GivesUp p) := by
  have hk := plain_of_prefixRule hr
  have hpp := EndsOn.refl hp hb.abreast hk
  unfold prefixRule at hr
  split at hr <;> cases hr
  · exact hpp
  · rw [integer, meets_bind, meets_current]
    split
    · exact hpp
    · exact .inl (hpp.report _)
  · exact hpp
  · exact hpp
  · exact hpp
  · exact unary_meets he hp hb hk hF
  · exact unary_meets he hp hb hk hF
  · exact grouped_meets he hp hb hk hF
  · exact array_meets he hp hb hk hF hN
  · exact conditional_meets hN hp hb hk hF he
  · exact function_meets hN hp hb hk hF he

/-- The rules for the first token behind a left operand. -/
theorem infixRule_meets (he : Advances F N expr) (hN : N ≤ fuel) (hp : p.Genuine) (hb : p.Behind)
    {rule : Node → Parse σ Node} (hr : infixRule expr fuel p.current.kind = some rule) (left : Node)
    (hF : F ∨ p.advance.upcoming.length ≤ N) :
    ((rule left).run p).Meets F (fun _ q => EndsOn p q) (GivesUp p) := by
  have hk := plain_of_infixRule hr
  unfold infixRule at hr
  split at hr <;> cases hr
  case h_9 => exact call_meets he hp hb hk hF hN left
  all_goals exact binary_meets he hp hb hk hF left

theorem operatorsRounds_meets (he : Advances F N expr) (hN : N ≤ fuel) (hq : EndsOn p q)
    (hF : F ∨ p.advance.upcoming.length ≤ N) (left : Node) :
    ((rounds (operatorsRound expr fuel floor) fuel left).run q).Meets F (fun _ r => EndsOn p r)
      (GivesUp p) := by
  refine meets_rounds (fun _ q => EndsOn p q) (fun q => q.advance.ahead.length)
    (fun left q hq => ?_) hq ?_
  · rw [operatorsRound, meets_bind, meets_peek]
    split
    · split
      · exact hq
      · next rule hrule =>
        have hF' : F ∨ q.advance.advance.upcoming.length ≤ N :=
          hF.imp_right (Nat.le_trans hq.length_upcoming_le)
        simp only [meets_bind, meets_advance, meets_pure]
        exact (infixRule_meets he hN hq.genuine.advance hq.abreast.advance hrule left hF').mono
          (fun _ r hr => ⟨hq.trans hr, .inr (hr.length_ahead_lt (plain_of_infixRule hrule))⟩)
          fun _ hr => hq.trans_givesUp hr
    · exact hq
  · exact hF.imp_right fun hle => hq.length_ahead_lt_of_le hle hN

/-- **Expressions advance.** With as much fuel as there are tokens to come, reading an expression
ends. -/
theorem expression_meets (F : Prop) (N : Nat) : Advances (σ := σ) F N (expression N) := by
  induction N with
  | zero =>
    -- There is always a token ahead, so there was not enough fuel.
    intro p floor hp hb hF
    rw [expression, meets_outOfFuel]
    refine hF.elim id fun hle => ?_
    exact absurd (List.length_eq_zero_iff.1 (Nat.le_zero.1 hle)) p.upcoming_ne_nil
  | succ N ih =>
    intro p floor hp hb hF
    rw [expression, meets_bind, meets_current]
    split
    · exact .inr ⟨hp, rfl, List.suffix_rfl, hb⟩
    · next rule hrule =>
      have hne := (plain_of_prefixRule hrule).1
      have hF' : F ∨ p.advance.upcoming.length ≤ N := by
        refine hF.imp_right fun hle => ?_
        rw [upcoming_of_ne_eof hne, List.length_cons] at hle
        omega
      rw [meets_bind]
      refine (prefixRule_meets ih (Nat.le_succ N) hp hb hrule hF').mono (fun left q hq => ?_)
        fun _ h => h
      exact operatorsRounds_meets ih (Nat.le_succ N) hq hF' left

end Parse

end MonkeySyntax
