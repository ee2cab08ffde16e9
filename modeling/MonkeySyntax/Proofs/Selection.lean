import MonkeySyntax.Proofs.Parallel
import MonkeySyntax.Proofs.Reading
import MonkeySyntax.Proofs.ReadingOrder
import MonkeySyntax.Proofs.Spelling.Soundness
import MonkeySyntax.Proofs.TokenOrder

/-!
# The tree is a selection of the tokens

Whatever may be wrong with a text, the tree that is returned consists of tokens of the text in the
order in which they stand there. No token is used twice, and none comes back that
has been passed with a statement that was dropped.

A rule that begins at `p` and is done at `q` has drawn its tree from the tokens between them
(`Parser.Draws`). Such statements compose as the rules do, so each rule of the grammar is followed
once. If a rule rejects the text, nothing needs to be known of the tree it was about to build. All
that matters then is that the parser has gone on, and whatever it has passed, the statements read
before are drawn from what stands before it (`Parser.Gathers`). This is kept by every move of the
parser, so it holds behind a dropped statement for the same reason as anywhere else.
-/

namespace MonkeySyntax

open Node (Drawn)

namespace Parser

variable {σ : Type} [TokenStream σ] {p q r : Parser σ} {ms ns : List Node}

/-- From `p` to `q`, trees have been drawn from the tokens; `q` stands on the last of them. -/
structure Draws (ns : List Node) (p q : Parser σ) : Prop where
  genuine : q.Genuine
  exists_drawn : ∃ ts, p.ahead = ts ++ q.advance.ahead ∧ Drawn ns ts

/-- **Trees one behind the other.** -/
theorem Draws.append (h : Draws ms p q) (h' : Draws ns q.advance r) : Draws (ms ++ ns) p r where
  genuine := h'.genuine
  exists_drawn := by
    obtain ⟨ts, hts, hms⟩ := h.exists_drawn
    obtain ⟨us, hus, hns⟩ := h'.exists_drawn
    exact ⟨ts ++ us, by rw [hts, hus, List.append_assoc], hms.append hns⟩

theorem Draws.closeBlock [LawfulTokenStream σ] (h : Draws ns p q) : Draws ns p q.closeBlock where
  genuine := (genuine_closeBlock q).2 h.genuine
  exists_drawn := by
    rw [ahead_advance_closeBlock]
    exact h.exists_drawn

variable [LawfulTokenStream σ]

/-- The current token may be passed over. -/
theorem Draws.pass (hp : p.Genuine) : Draws [] p p where
  genuine := hp
  exists_drawn := by
    by_cases hk : p.current.kind = .eof
    · exact ⟨[], by rw [hp.ahead_advance, ahead_of_eof hk]; rfl, .nil⟩
    · exact ⟨[p.current], ahead_of_ne_eof hk, .pass _⟩

/-- So may the next one, behind trees that have been drawn. -/
theorem Draws.advance (h : Draws ns p q) : Draws ns p q.advance := by
  have hpass := h.append (Draws.pass h.genuine.advance)
  rwa [List.append_nil] at hpass

/-- A node whose token is the current one, and what has been drawn for it behind this token. -/
theorem Draws.first {n : Node} (hmade : n.WellMade) (hfirst : n.beginsWithToken = true)
    (ht : n.token? = some p.current) (hk : p.current.kind ≠ .eof)
    (h : Draws n.children p.advance q) : Draws [n] p q where
  genuine := h.genuine
  exists_drawn := by
    obtain ⟨ts, hts, hn⟩ := h.exists_drawn
    refine ⟨p.current :: ts, ?_, .first hmade hfirst ht hn⟩
    rw [ahead_of_ne_eof hk, hts]
    rfl

/-- A name or a literal is its one token. -/
theorem Draws.token {n : Node} (hmade : n.WellMade) (hfirst : n.beginsWithToken = true)
    (ht : n.token? = some p.current) (hleaf : n.children = []) (hp : p.Genuine)
    (hk : p.current.kind ≠ .eof) : Draws [n] p p where
  genuine := hp
  exists_drawn := ⟨[p.current], ahead_of_ne_eof hk, .first hmade hfirst ht (hleaf ▸ .nil)⟩

/-- A node whose token is the next one, behind the first node below it, and what has been drawn for
the others behind this token. -/
theorem Draws.within {n m : Node} (hmade : n.WellMade) (hwithin : n.hasTokenWithin = true)
    (ht : n.token? = some q.peek) (hk : q.peek.kind ≠ .eof) (hc : n.children = m :: ns)
    (hfirst : Draws [m] p q) (hrest : Draws ns q.advance.advance r) : Draws [n] p r where
  genuine := hrest.genuine
  exists_drawn := by
    obtain ⟨ts, hts, hm⟩ := hfirst.exists_drawn
    obtain ⟨us, hus, hns⟩ := hrest.exists_drawn
    have hne : q.advance.current.kind ≠ .eof := by rwa [current_advance]
    refine ⟨ts ++ q.peek :: us, ?_, .within hmade hwithin ht hc hm hns⟩
    rw [hts, ahead_of_ne_eof hne, hus, List.append_assoc]
    rfl

/-- A statement that is an expression has the current token, be it listed or not. -/
theorem Draws.expressionStatement {e : Node} (h : Draws [e] p q) :
    Draws [.expressionStatement p.current e] p q where
  genuine := h.genuine
  exists_drawn := by
    obtain ⟨ts, hts, he⟩ := h.exists_drawn
    cases ts with
    | nil => exact absurd rfl (he.ne_nil (List.cons_ne_nil _ _))
    | cons t ts =>
      obtain ⟨rfl, -⟩ := current_of_ahead hts
      exact ⟨_, hts, .expressionStatement he⟩

/-- The statements have been drawn from the tokens between `p` and `q`, and the current token of `q`
is not one of them. -/
structure Gathers (ss : List Node) (p q : Parser σ) : Prop where
  genuine : q.Genuine
  statements : ∀ s ∈ ss, s.isStatement = true
  exists_drawn : ∃ ts, p.ahead = ts ++ q.ahead ∧ Drawn ss ts

namespace Gathers

variable {ss : List Node}

omit [LawfulTokenStream σ] in
theorem start (hp : p.Genuine) : Gathers [] p p :=
  ⟨hp, fun _ hs => absurd hs List.not_mem_nil, [], rfl, .nil⟩

omit [LawfulTokenStream σ] in
/-- One more statement. -/
theorem concat {s : Node} (h : Gathers ss p q) (hs : s.isStatement = true) (hq : Draws [s] q r) :
    Gathers (ss ++ [s]) p r.advance where
  genuine := hq.genuine.advance
  statements := by
    intro t ht
    rcases List.mem_append.1 ht with ht | ht
    · exact h.statements t ht
    · rwa [List.mem_singleton.1 ht]
  exists_drawn := by
    obtain ⟨ts, hts, hss⟩ := h.exists_drawn
    obtain ⟨us, hus, hthis⟩ := hq.exists_drawn
    exact ⟨ts ++ us, by rw [hts, hus, List.append_assoc], hss.append hthis⟩

theorem draws (h : Gathers ss p q) : Draws ss p q where
  genuine := h.genuine
  exists_drawn := by
    obtain ⟨ts, hts, hss⟩ := h.exists_drawn
    obtain ⟨us, hus, hpass⟩ := (Draws.pass h.genuine).exists_drawn
    refine ⟨ts ++ us, by rw [hts, hus, List.append_assoc], ?_⟩
    have hboth := hss.append hpass
    rwa [List.append_nil] at hboth

/-- The current token is passed over. -/
theorem advance (h : Gathers ss p q) : Gathers ss p q.advance where
  genuine := h.genuine.advance
  statements := h.statements
  exists_drawn := h.draws.exists_drawn

/-- **Whatever is done behind the statements**, they remain drawn from what stands before. -/
theorem keeps {α : Type} {i : Bool} {b c : Parse.Stage} {m : Parse σ α} (h : Gathers ss p q)
    (hm : Parse.Built i b c m) :
    (m.run q).Meets True (fun _ r => Gathers ss p r) (Gathers ss p) :=
  hm.keeps ⟨fun _ hr => hr.advance,
    fun _ _ hr => ⟨hr.genuine, hr.statements, hr.exists_drawn⟩,
    fun _ hr => ⟨hr.genuine, hr.statements, hr.exists_drawn⟩,
    fun r hr => ⟨(genuine_closeBlock r).2 hr.genuine, hr.statements,
      r.ahead_closeBlock.symm ▸ hr.exists_drawn⟩⟩ h

end Gathers

end Parser

namespace Parse

open MonkeySyntax.Parser

variable {σ : Type} [TokenStream σ] [LawfulTokenStream σ] {expr : Nat → Parse σ Node}
  {p q : Parser σ} {ns : List Node} {fuel : Nat}

/-- What is known of the reader of expressions that the rules are given. -/
structure DrawsExpressions (expr : Nat → Parse σ Node) : Prop where
  draws : ∀ (p : Parser σ) (floor : Nat), p.Genuine →
    ((expr floor).run p).Meets True (fun e q => Draws [e] p q) fun _ => True
  self : ∀ (i : Bool) (floor : Nat),
    Parallel i .fresh .settled Node.LooksLike (expr floor) (expr floor)

omit [LawfulTokenStream σ] in
/-- An expression behind trees that have been drawn. -/
theorem DrawsExpressions.next (he : DrawsExpressions expr) (h : Draws ns p q) (floor : Nat) :
    ((expr floor).run q.advance).Meets True (fun e r => Draws (ns ++ [e]) p r) fun _ => True :=
  (he.draws q.advance floor h.genuine.advance).mono (fun _ _ hr => h.append hr) fun _ h => h

theorem expect_draws (h : Draws ns p q) (kind : TokenKind) :
    ((expect kind).run q).Meets True (fun _ r => Draws ns p r) fun _ => True :=
  meets_expect (fun _ => h.advance) fun _ => trivial

/-! ### Operations and lists -/

theorem identifier_draws (hp : p.Genuine) (hk : p.current.kind = .identifier) :
    ((identifier (σ := σ)).run p).Meets True
      (fun n q => q = p ∧ Draws [n] p p ∧ n.isName = true) fun _ => True := by
  rw [identifier, meets_bind, meets_current]
  exact ⟨rfl, Draws.token ⟨hk, rfl⟩ rfl rfl rfl hp (by simp [hk]), rfl⟩

section Rules

variable (he : DrawsExpressions expr) (hp : p.Genuine)

include he hp

theorem unary_draws (hk : p.current.kind.IsUnary) :
    ((unary expr).run p).Meets True (fun e q => Draws [e] p q) fun _ => True := by
  simp only [unary, meets_bind, meets_current, meets_advance, meets_pure]
  refine (he.draws p.advance _ hp.advance).mono (fun right q hq => ?_) fun _ h => h
  exact .first ⟨hk, rfl⟩ rfl rfl hk.ne_eof hq

theorem grouped_draws :
    ((grouped expr).run p).Meets True (fun e q => Draws [e] p q) fun _ => True := by
  simp only [grouped, meets_bind, meets_advance, meets_pure]
  -- Neither of the parentheses is listed.
  refine (he.next (.pass hp) _).mono (fun inner q hq => ?_) fun _ h => h
  exact expect_draws hq _

end Rules

theorem binary_draws (he : DrawsExpressions expr) {left : Node} (h : Draws [left] p q)
    (hk : q.peek.kind.IsBinary) :
    ((binary expr left).run q.advance).Meets True (fun e r => Draws [e] p r) fun _ => True := by
  simp only [binary, meets_bind, meets_current, meets_advance, meets_pure]
  refine (he.draws q.advance.advance _ h.genuine.advance.advance).mono (fun right r hr => ?_)
    fun _ h => h
  exact .within ⟨hk, rfl⟩ rfl rfl hk.ne_eof rfl h hr

theorem expressionsRounds_draws (he : DrawsExpressions expr) (bound : Nat) {items : List Node}
    (h : Draws items p q) :
    ((rounds (expressionsRound expr) bound items).run q).Meets True (fun es r => Draws es p r)
      fun _ => True := by
  refine meets_rounds (fun items q => Draws items p q) (fun _ => 0) (fun items q hq => ?_) h
    (.inl trivial)
  rw [expressionsRound, meets_bind, meets_peek]
  split
  · simp only [meets_bind, meets_advance, meets_pure]
    exact (he.next hq.advance _).mono (fun _ _ hr => ⟨hr, .inl trivial⟩) fun _ h => h
  · exact hq

/-- A list is drawn from what stands behind its opening token. -/
theorem expressionList_draws (he : DrawsExpressions expr) (hp : p.Genuine) (closing : TokenKind) :
    ((expressionList expr fuel closing).run p).Meets True (fun es q => Draws es p.advance q)
      fun _ => True := by
  rw [expressionList, meets_bind, meets_peek]
  split
  · exact Draws.pass hp.advance
  · simp only [meets_bind, meets_advance, meets_pure]
    refine (he.draws p.advance _ hp.advance).mono (fun e q hq => ?_) fun _ h => h
    refine (expressionsRounds_draws he _ hq).mono (fun es r hr => ?_) fun _ h => h
    exact expect_draws hr _

theorem array_draws (he : DrawsExpressions expr) (hp : p.Genuine)
    (hk : p.current.kind = .leftBracket) :
    ((array expr fuel).run p).Meets True (fun e q => Draws [e] p q) fun _ => True := by
  simp only [array, meets_bind, meets_current, meets_pure]
  refine (expressionList_draws he hp _).mono (fun es q hq => ?_) fun _ h => h
  exact .first hk rfl rfl (by simp [hk]) hq

theorem call_draws (he : DrawsExpressions expr) {callee : Node} (h : Draws [callee] p q)
    (hk : q.peek.kind = .leftParen) :
    ((call expr fuel callee).run q.advance).Meets True (fun e r => Draws [e] p r)
      fun _ => True := by
  simp only [call, meets_bind, meets_current, meets_pure]
  refine (expressionList_draws he h.genuine.advance _).mono (fun es r hr => ?_) fun _ h => h
  exact .within hk rfl rfl (by simp [hk]) rfl h hr

theorem parametersRounds_draws (bound : Nat) {names : List Node} (h : Draws names p q)
    (hnames : ∀ n ∈ names, n.isName = true) :
    ((rounds (parametersRound (σ := σ)) bound names).run q).Meets True
      (fun ns r => Draws ns p r ∧ ∀ n ∈ ns, n.isName = true) fun _ => True := by
  refine meets_rounds (fun ns q => Draws ns p q ∧ ∀ n ∈ ns, n.isName = true) (fun _ => 0)
    (fun ns q hq => ?_) ⟨h, hnames⟩ (.inl trivial)
  rw [parametersRound, meets_bind, meets_peek]
  split
  · simp only [meets_bind, meets_advance, meets_pure]
    refine meets_expect (fun hk => ?_) fun _ => trivial
    refine (identifier_draws hq.1.genuine.advance.advance hk).mono (fun n r hr => ?_) fun _ h => h
    obtain ⟨rfl, hn, hname⟩ := hr
    refine ⟨⟨hq.1.advance.append hn, fun m hm => ?_⟩, .inl trivial⟩
    rcases List.mem_append.1 hm with hm | hm
    · exact hq.2 m hm
    · rwa [List.mem_singleton.1 hm]
  · exact hq

theorem parameters_draws (hp : p.Genuine) :
    ((parameters fuel).run p).Meets True
      (fun ns q => Draws ns p.advance q ∧ ∀ n ∈ ns, n.isName = true) fun _ => True := by
  rw [parameters, meets_bind, meets_peek]
  split
  · exact ⟨Draws.pass hp.advance, fun _ hn => absurd hn List.not_mem_nil⟩
  · simp only [meets_bind, meets_pure]
    refine meets_expect (fun hk => ?_) fun _ => trivial
    refine (identifier_draws hp.advance hk).mono (fun n q hq => ?_) fun _ h => h
    obtain ⟨rfl, hn, hname⟩ := hq
    refine (parametersRounds_draws fuel hn ?_).mono (fun ns r hr => ?_) fun _ h => h
    · exact fun m hm => (List.mem_singleton.1 hm) ▸ hname
    · exact (expect_draws hr.1 _).mono (fun _ _ hs => ⟨hs, hr.2⟩) fun _ h => h

/-! ### Statements -/

theorem optionalSemicolon_draws (h : Draws ns p q) :
    (optionalSemicolon.run q).Meets True (fun _ r => Draws ns p r) fun _ => True := by
  rw [optionalSemicolon, meets_bind, meets_peek]
  split
  · exact h.advance
  · exact h

section Statements

variable (he : DrawsExpressions expr) (hp : p.Genuine)

include he hp

theorem letStatement_draws (hk : p.current.kind = .letKeyword) :
    ((letStatement expr).run p).Meets True (fun s q => Draws [s] p q ∧ s.isStatement = true)
      fun _ => True := by
  simp only [letStatement, meets_bind, meets_current, meets_advance, meets_pure]
  refine meets_expect (fun hn => ?_) fun _ => trivial
  refine (identifier_draws hp.advance hn).mono (fun name q hq => ?_) fun _ h => h
  obtain ⟨rfl, hdraws, hname⟩ := hq
  refine (expect_draws hdraws .assign).mono (fun _ r hr => ?_) fun _ h => h
  refine (he.next hr _).mono (fun value r' hr' => ?_) fun _ h => h
  refine (optionalSemicolon_draws hr').mono (fun _ r'' hr'' => ?_) fun _ h => h
  exact ⟨.first ⟨hk, hname⟩ rfl rfl (by simp [hk]) hr'', rfl⟩

theorem returnStatement_draws (hk : p.current.kind = .returnKeyword) :
    ((returnStatement expr).run p).Meets True (fun s q => Draws [s] p q ∧ s.isStatement = true)
      fun _ => True := by
  simp only [returnStatement, meets_bind, meets_current, meets_advance, meets_pure]
  refine (he.draws p.advance _ hp.advance).mono (fun value q hq => ?_) fun _ h => h
  refine (optionalSemicolon_draws hq).mono (fun _ r hr => ?_) fun _ h => h
  exact ⟨.first hk rfl rfl (by simp [hk]) hr, rfl⟩

theorem statement_draws :
    ((statement expr).run p).Meets True (fun s q => Draws [s] p q ∧ s.isStatement = true)
      fun _ => True := by
  rw [statement, meets_bind, meets_current]
  split
  · next hk => exact letStatement_draws he hp hk
  · next hk => exact returnStatement_draws he hp hk
  · simp only [expressionStatement, meets_bind, meets_current, meets_pure]
    refine (he.draws p _ hp).mono (fun e q hq => ?_) fun _ h => h
    refine (optionalSemicolon_draws hq).mono (fun _ r hr => ?_) fun _ h => h
    exact ⟨hr.expressionStatement, rfl⟩

end Statements

theorem statementsRound_draws (he : DrawsExpressions expr) (ends : TokenKind → Bool)
    {before : List Node} (h : Gathers before p q) :
    ((statementsRound expr fuel ends before).run q).Meets True
      (fun
        | .next before', r => Gathers before' p r
        | .stop body, r => Gathers body p r) fun _ => True := by
  rw [statementsRound, meets_bind, meets_current]
  split
  · exact h
  · simp only [meets_bind, meets_attempt]
    have hbuilt : Built true .fresh .settled (statement expr) :=
      (statement_parallel he.self).built_left
    refine ((statement_draws he h.genuine).and (h.keeps hbuilt)).mono (fun s r hr => ?_)
      fun r hr => ?_
    · exact h.concat hr.1.2 hr.1.1
    · -- What has been passed by now belongs to no statement, nor does what is skipped.
      have hdropped : Gathers before p r.drop := ⟨hr.2.genuine, hr.2.statements, hr.2.exists_drawn⟩
      have hskip : Built true .reported .reported (synchronize (σ := σ) fuel) :=
        (synchronize_parallel (τ := σ) fuel fuel).built_left
      refine (hdropped.keeps hskip).mono (fun b r' hr' => ?_) fun _ _ => trivial
      split
      · exact hr'
      · exact hr'.advance

theorem statements_draws (he : DrawsExpressions expr) (ends : TokenKind → Bool) (hp : p.Genuine) :
    ((statements expr fuel ends).run p).Meets True (fun body q => Gathers body p q)
      fun _ => True := by
  refine meets_rounds (fun before q => Gathers before p q) (fun _ => 0) (fun before q hq => ?_)
    (.start hp) (.inl trivial)
  refine (statementsRound_draws he ends hq).mono (fun x r hr => ?_) fun _ h => h
  cases x with
  | next before' => exact ⟨hr, .inl trivial⟩
  | stop body => exact hr

/-! ### Blocks -/

theorem block_draws (he : DrawsExpressions expr) (hp : p.Genuine)
    (hk : p.current.kind = .leftBrace) :
    ((block expr fuel).run p).Meets True (fun b q => Draws [b] p q ∧ b.isBlock = true)
      fun _ => True := by
  simp only [block, meets_bind, meets_current, meets_advance, meets_closeBlock, meets_pure]
  refine (statements_draws he _ hp.advance).mono (fun body q hq => ?_) fun _ h => h
  exact ⟨.first ⟨hk, hq.statements⟩ rfl rfl (by simp [hk]) hq.draws.closeBlock, rfl⟩

/-- A block where a rule expects one, behind trees that have been drawn. -/
theorem expect_block_draws (fuel : Nat) (he : DrawsExpressions expr) (h : Draws ns p q) :
    ((expect .leftBrace).run q).Meets True
      (fun _ r => ((block expr fuel).run r).Meets True
        (fun b r => Draws (ns ++ [b]) p r ∧ b.isBlock = true) fun _ => True) fun _ => True := by
  refine meets_expect (fun hk => ?_) fun _ => trivial
  exact (block_draws he h.genuine.advance hk).mono (fun b r hr => ⟨h.append hr.1, hr.2⟩)
    fun _ h => h

theorem alternative_draws (he : DrawsExpressions expr) (h : Draws ns p q) :
    ((alternative expr fuel).run q).Meets True
      (fun o r => Draws (ns ++ o.toList) p r ∧ ∀ b ∈ o, b.isBlock = true) fun _ => True := by
  rw [alternative, meets_bind, meets_peek]
  split
  · simp only [meets_bind, meets_advance, meets_pure]
    refine (expect_block_draws fuel he h.advance).mono (fun _ r hr => ?_) fun _ h => h
    refine hr.mono (fun b r' hr' => ⟨hr'.1, fun b' hb => ?_⟩) fun _ h => h
    obtain rfl := Option.some.inj hb
    exact hr'.2
  · refine ⟨?_, fun b hb => by cases hb⟩
    rw [Option.toList_none, List.append_nil]
    exact h

theorem conditional_draws (he : DrawsExpressions expr) (hp : p.Genuine)
    (hk : p.current.kind = .ifKeyword) :
    ((conditional expr fuel).run p).Meets True (fun e q => Draws [e] p q) fun _ => True := by
  simp only [conditional, meets_bind, meets_current, meets_advance, meets_pure]
  refine meets_expect (fun _ => ?_) fun _ => trivial
  refine (he.next (.pass hp.advance) _).mono (fun condition q hq => ?_) fun _ h => h
  refine (expect_draws hq _).mono (fun _ q hq => ?_) fun _ h => h
  refine (expect_block_draws fuel he hq).mono (fun _ r hr => hr.mono (fun b r hr => ?_) fun _ h => h)
    fun _ h => h
  refine (alternative_draws he hr.1).mono (fun o r' hr' => ?_) fun _ h => h
  exact .first ⟨hk, hr.2, hr'.2⟩ rfl rfl (by simp [hk]) hr'.1

theorem function_draws (he : DrawsExpressions expr) (hp : p.Genuine)
    (hk : p.current.kind = .functionKeyword) :
    ((function expr fuel).run p).Meets True (fun e q => Draws [e] p q) fun _ => True := by
  simp only [function, meets_bind, meets_current, meets_pure]
  refine meets_expect (fun _ => ?_) fun _ => trivial
  refine (parameters_draws hp.advance).mono (fun names q hq => ?_) fun _ h => h
  have hnames : Draws names p.advance q := (Draws.pass hp.advance).append hq.1
  refine (expect_block_draws fuel he hnames).mono
    (fun _ r hr => hr.mono (fun b r hr => ?_) fun _ h => h) fun _ h => h
  exact .first ⟨hk, hq.2, hr.2⟩ rfl rfl (by simp [hk]) hr.1

/-! ### Expressions -/

theorem prefixRule_draws (he : DrawsExpressions expr) (hp : p.Genuine) {rule : Parse σ Node}
    (hr : prefixRule expr fuel p.current.kind = some rule) :
    (rule.run p).Meets True (fun e q => Draws [e] p q) fun _ => True := by
  have hne : p.current.kind ≠ .eof := (plain_of_prefixRule hr).1
  unfold prefixRule at hr
  split at hr <;> cases hr
  case h_1 hk => exact (identifier_draws hp hk).mono (fun n q hq => hq.1 ▸ hq.2.1) fun _ h => h
  case h_2 hk =>
    rw [integer, meets_bind, meets_current]
    split
    · next value hvalue => exact Draws.token ⟨hk, hvalue⟩ rfl rfl rfl hp hne
    · trivial
  case h_3 hk => exact Draws.token (.inl ⟨hk, by simp [hk]⟩) rfl rfl rfl hp hne
  case h_4 hk => exact Draws.token (.inr ⟨hk, by simp [hk]⟩) rfl rfl rfl hp hne
  case h_5 hk => exact Draws.token ⟨hk, rfl⟩ rfl rfl rfl hp hne
  case h_6 hk => exact unary_draws he hp (.inl hk)
  case h_7 hk => exact unary_draws he hp (.inr hk)
  case h_8 hk => exact grouped_draws he hp
  case h_9 hk => exact array_draws he hp hk
  case h_10 hk => exact conditional_draws he hp hk
  case h_11 hk => exact function_draws he hp hk

/-- The operand grows by an operator, or it is complete. -/
theorem operatorsRound_draws (he : DrawsExpressions expr) (floor : Nat) {left : Node}
    (h : Draws [left] p q) :
    ((operatorsRound expr fuel floor left).run q).Meets True
      (fun
        | .next e, r => Draws [e] p r
        | .stop e, r => Draws [e] p r) fun _ => True := by
  rw [operatorsRound, meets_bind, meets_peek]
  split
  · split
    · exact h
    · next rule hrule =>
      simp only [meets_bind, meets_advance, meets_pure]
      rcases infixRule_cases hrule with ⟨hbinary, rfl⟩ | ⟨hparen, rfl⟩
      · exact binary_draws he h hbinary
      · exact call_draws he h hparen
  · exact h

/-- **Expressions** are drawn from their tokens, however deeply they are nested. -/
theorem expression_draws (N : Nat) : DrawsExpressions (σ := σ) (expression N) := by
  refine ⟨?_, expression_self N⟩
  induction N with
  | zero => exact fun p floor hp => trivial
  | succ N ih =>
    intro p floor hp
    have he : DrawsExpressions (σ := σ) (expression N) := ⟨ih, expression_self N⟩
    rw [expression, meets_bind, meets_current]
    split
    · trivial
    · next rule hrule =>
      rw [meets_bind]
      refine (prefixRule_draws he hp hrule).mono (fun left q hq => ?_) fun _ h => h
      refine meets_rounds (fun left q => Draws [left] p q) (fun _ => 0) (fun left q hq => ?_) hq
        (.inl trivial)
      refine (operatorsRound_draws he floor hq).mono (fun x r hr => ?_) fun _ h => h
      cases x with
      | next e => exact ⟨hr, .inl trivial⟩
      | stop e => exact hr

end Parse

/-! ### Programs -/

open Parse in
/-- The program that a stream holds is drawn from its tokens. -/
theorem Reading.drawn_ofStream {σ : Type} [TokenStream σ] [LawfulTokenStream σ] (s : σ) :
    Drawn (ofStream s).program.statements (TokenStream.toList s).dropLast ∧
      ∀ n ∈ (ofStream s).program.statements, n.isStatement = true := by
  obtain ⟨body, q, hrun, heof, heq⟩ :=
    exists_run (Parser.genuine_ofStream s) (Parser.behind_ofStream s)
  have hdraws : ((statements (expression (Parser.ofStream s).fuel) (Parser.ofStream s).fuel
      endsProgram).run (Parser.ofStream s)).Meets True
      (fun body q => Parser.Gathers body (Parser.ofStream s) q) fun _ => True :=
    statements_draws (expression_draws _) endsProgram (Parser.genuine_ofStream s)
  rw [hrun] at hdraws
  obtain ⟨-, hstatements, ts, hts, hbody⟩ := hdraws
  -- At the end of the input nothing is left ahead.
  rw [Parser.ahead, Parser.upcoming_ofStream, Parser.ahead_of_eof heof, List.append_nil] at hts
  rw [ofStream, heq, hts]
  exact ⟨hbody, hstatements⟩

/-- **The tree is a selection of the tokens.** Whatever is wrong with a text, the tokens of the
program, listed in reading order, are a subsequence of the tokens of the text, and no token is
listed twice. In each sequence of statements, at any depth of the program, the token of a statement
is a token of the text that stands behind all that the statements before it list, and not behind
what it lists itself. -/
theorem parse_listed (source : String) :
    (parse source).program.toNode.listed.Sublist (tokenize source) ∧
      (parse source).program.toNode.listed.Nodup ∧
      ∀ n : Node, n.IsIn (parse source).program.toNode →
        ∀ before s after, n.statements = before ++ s :: after →
          ∃ t front behind, s.token? = some t ∧ tokenize source = front ++ t :: behind ∧
            (Node.listedEach before).Sublist front ∧ s.listed.Sublist (t :: behind) := by
  obtain ⟨hdrawn, hstatements⟩ := Reading.drawn_ofStream (Scanner.Cursor.ofString source)
  obtain ⟨ts, e, hts, -⟩ := TokenStream.exists_toList_eq (Scanner.Cursor.ofString source)
  rw [hts, List.dropLast_concat] at hdrawn
  have htokens : tokenize source = ts ++ [e] := hts
  have hsublist : (parse source).program.toNode.listed.Sublist (tokenize source) := by
    rw [htokens]
    exact hdrawn.listed_sublist.trans (List.sublist_append_left ts [e])
  refine ⟨hsublist, hsublist.nodup (tokenize_nodup source), ?_⟩
  rw [htokens]
  show ∀ n : Node, n.IsIn _ → n.Ordered (ts ++ [e])
  have hprogram : Drawn (parse source).program.toNode.statements ts := hdrawn
  apply Node.forall_isIn
  · exact (hprogram.ordered_statements hstatements).before [e]
  · exact fun c hc n hn => (hdrawn.ordered c hc n hn).before [e]

/-- In a block from which a statement has been dropped, the statement behind it comes after the one
before it. -/
theorem parse_listed_dropped :
    (parse "fn() \x7b a; let 5; b \x7d").diagnostics = [.expected .identifier ⟨.int, "5", 1, 15⟩] ∧
    ∃ front behind, tokenize "fn() \x7b a; let 5; b \x7d" =
        front ++ ⟨.identifier, "b", 1, 18⟩ :: behind ∧
      [⟨.identifier, "a", 1, 8⟩].Sublist front := by
  have hprogram : (parse "fn() \x7b a; let 5; b \x7d").program.statements =
      [.expressionStatement ⟨.functionKeyword, "fn", 1, 1⟩
        (.function ⟨.functionKeyword, "fn", 1, 1⟩ [] (.block ⟨.leftBrace, "\x7b", 1, 6⟩
          [.expressionStatement ⟨.identifier, "a", 1, 8⟩
            (.identifier ⟨.identifier, "a", 1, 8⟩ "a"),
          .expressionStatement ⟨.identifier, "b", 1, 18⟩
            (.identifier ⟨.identifier, "b", 1, 18⟩ "b")]))] := by
    rfl
  obtain ⟨-, -, hordered⟩ := parse_listed "fn() \x7b a; let 5; b \x7d"
  rw [Program.toNode, hprogram] at hordered
  obtain ⟨t, front, behind, ht, htokens, hbefore, -⟩ := hordered _
    (.child List.mem_cons_self (.child List.mem_cons_self (.child List.mem_cons_self .self)))
    [_] _ [] rfl
  obtain rfl := Option.some.inj ht
  exact ⟨by decide +kernel, front, behind, htokens, hbefore⟩

end MonkeySyntax
