import Mathlib.Data.List.Forall2
import MonkeySyntax.Proofs.Reading
import MonkeySyntax.Proofs.Spelling
import MonkeySyntax.Tree.Sameness

/-!
# Spellings are accepted

Whatever spells a program is read as that program. The tokens of a text need only look like those of
the spelling, and closing braces at its end may be missing.

The argument is an induction over the spelling, with a goal for each phrase (`Restores`). For most
phrases the goal says what the rule of the grammar does when the tokens of the phrase are ahead. For
expressions that is not enough: the left operand of an operator is not read by a call of its own,
but is what a loop has collected when it meets the operator. So the goal for an expression says how
the loop goes on: reading an expression comes down to running the loop over operators from behind
the tokens of the expression, with the tree of the expression as the operand collected so far. A
binary operator then takes the loop one round further, and so does a call.

That reading comes to an end is known from `Advance`. The goals speak only of runs that do.
-/

namespace MonkeySyntax

/-! ### The first token of a phrase -/

/-- An expression may begin with such a token. -/
def TokenKind.BeginsExpression (k : TokenKind) : Prop :=
  k ∈ [.identifier, .int, .trueKeyword, .falseKeyword, .string, .bang, .minus, .leftParen,
    .leftBracket, .ifKeyword, .functionKeyword]

instance (k : TokenKind) : Decidable k.BeginsExpression :=
  inferInstanceAs (Decidable (_ ∈ _))

/-- A statement may begin with such a token. -/
def TokenKind.BeginsStatement (k : TokenKind) : Prop :=
  k.BeginsExpression ∨ k = .letKeyword ∨ k = .returnKeyword

theorem TokenKind.IsUnary.beginsExpression {k : TokenKind} (h : k.IsUnary) :
    k.BeginsExpression := by
  rcases h with rfl | rfl <;> decide

theorem Spells.exists_expression_eq_cons {floor : Nat} {e : Node} {ts : List Token}
    (h : Spells (.expression floor e) ts) : ∃ t us, ts = t :: us ∧ t.kind.BeginsExpression := by
  generalize hp : Phrase.expression floor e = phrase at h
  induction h generalizing floor e with
  | identifier hk => exact ⟨_, _, rfl, hk ▸ by decide⟩
  | integer hk => exact ⟨_, _, rfl, hk ▸ by decide⟩
  | trueLiteral hk => exact ⟨_, _, rfl, hk ▸ by decide⟩
  | falseLiteral hk => exact ⟨_, _, rfl, hk ▸ by decide⟩
  | string hk => exact ⟨_, _, rfl, hk ▸ by decide⟩
  | unary _ hk => exact ⟨_, _, rfl, hk.beginsExpression⟩
  | binary _ _ _ _ ih =>
    obtain ⟨t, us, rfl, ht⟩ := ih rfl
    exact ⟨t, _, rfl, ht⟩
  | call _ _ _ _ _ ih =>
    obtain ⟨t, us, rfl, ht⟩ := ih rfl
    exact ⟨t, _, rfl, ht⟩
  | grouped hk => exact ⟨_, _, rfl, hk ▸ by decide⟩
  | array hk => exact ⟨_, _, rfl, hk ▸ by decide⟩
  | conditional hk => exact ⟨_, _, rfl, hk ▸ by decide⟩
  | conditionalElse hk => exact ⟨_, _, rfl, hk ▸ by decide⟩
  | function hk => exact ⟨_, _, rfl, hk ▸ by decide⟩
  | _ => cases hp

theorem Spells.exists_statement_eq_cons {s : Node} {ts : List Token}
    (h : Spells (.statement s) ts) : ∃ t us, ts = t :: us ∧ t.kind.BeginsStatement := by
  cases h with
  | letStatement hk => exact ⟨_, _, rfl, .inr (.inl hk)⟩
  | returnStatement hk => exact ⟨_, _, rfl, .inr (.inr hk)⟩
  | expressionStatement he =>
    obtain ⟨t, us, rfl, ht⟩ := he.exists_expression_eq_cons
    exact ⟨t, us, rfl, .inl ht⟩

theorem Spells.beginsStatement_of_mem_head? {ss : List Node} {ts : List Token} {t : Token}
    (h : Spells (.statements ss) ts) (ht : t ∈ ts.head?) : t.kind.BeginsStatement := by
  cases h with
  | noStatements => cases ht
  | terminated hs =>
    obtain ⟨u, us, rfl, hu⟩ := hs.exists_statement_eq_cons
    exact (Option.some.inj ht) ▸ hu
  | unterminated hs =>
    obtain ⟨u, us, rfl, hu⟩ := hs.exists_statement_eq_cons
    exact (Option.some.inj ht) ▸ hu

/-! ### Parsers that have a spelling ahead -/

namespace Parser

variable {σ : Type} [TokenStream σ] {p q r : Parser σ} {t : Token} {ts us : List Token}

/-- The tokens ahead look like the given ones. Closing braces at the end may be missing. -/
structure Awaits (p : Parser σ) (ts : List Token) : Prop where
  genuine : p.Genuine
  exists_closers : ∃ us closers, ts = us ++ closers ∧ (∀ t ∈ closers, t.kind = .rightBrace) ∧
    List.Forall₂ Token.LooksLike p.ahead us

/-- From `p` to `q`, all has been read before the given tokens, and nothing has been reported; `q`
stands on the token before these. -/
structure Reaches (p : Parser σ) (ts : List Token) (q : Parser σ) : Prop where
  awaits : q.advance.Awaits ts
  diagnostics_eq : q.diagnostics = p.diagnostics

theorem Reaches.trans (h : p.Reaches ts q) (h' : q.advance.Reaches us r) : p.Reaches us r :=
  ⟨h'.awaits, h'.diagnostics_eq.trans h.diagnostics_eq⟩

variable [LawfulTokenStream σ]

/-- The first of the tokens is the current one, or is a brace that is missing at the end. -/
theorem Awaits.cons (h : p.Awaits (t :: ts)) :
    p.current.LooksLike t ∧ p.current.kind ≠ .eof ∨
      p.current.kind = .eof ∧ t.kind = .rightBrace := by
  obtain ⟨us, closers, hts, hclosers, hus⟩ := h.exists_closers
  cases us with
  | nil =>
    subst hts
    exact .inr ⟨ahead_eq_nil_iff.1 (List.forall₂_nil_right_iff.1 hus), hclosers t (by simp)⟩
  | cons u us =>
    obtain ⟨rfl, rfl⟩ := List.cons.inj hts
    obtain ⟨c, cs, hc, -, hahead⟩ := List.forall₂_cons_right_iff.1 hus
    obtain ⟨rfl, hne, -⟩ := current_of_ahead hahead
    exact .inl ⟨hc, hne⟩

theorem Awaits.advance (h : p.Awaits (t :: ts)) : p.advance.Awaits ts := by
  obtain ⟨us, closers, hts, hclosers, hus⟩ := h.exists_closers
  refine ⟨h.genuine.advance, ?_⟩
  rw [h.genuine.ahead_advance]
  cases us with
  | nil =>
    subst hts
    rw [List.forall₂_nil_right_iff.1 hus]
    exact ⟨[], ts, rfl, fun t ht => hclosers t (List.mem_cons_of_mem _ ht), .nil⟩
  | cons u us =>
    obtain ⟨rfl, rfl⟩ := List.cons.inj hts
    obtain ⟨c, cs, -, hcs, hahead⟩ := List.forall₂_cons_right_iff.1 hus
    rw [hahead]
    exact ⟨us, closers, rfl, hclosers, hcs⟩

theorem Awaits.looksLike (h : p.Awaits (t :: ts)) (ht : t.kind ≠ .rightBrace) :
    p.current.LooksLike t := by
  rcases h.cons with ⟨hlooks, -⟩ | ⟨-, hbrace⟩
  · exact hlooks
  · exact absurd hbrace ht

theorem Awaits.kind_eq (h : p.Awaits (t :: ts)) (ht : t.kind ≠ .rightBrace) :
    p.current.kind = t.kind :=
  (h.looksLike ht).1

theorem Awaits.kind_of_nil (h : p.Awaits []) : p.current.kind = .eof := by
  obtain ⟨us, closers, hts, -, hus⟩ := h.exists_closers
  obtain ⟨rfl, -⟩ := List.append_eq_nil_iff.1 hts.symm
  exact ahead_eq_nil_iff.1 (List.forall₂_nil_right_iff.1 hus)

/-- The parser sees the first of the tokens, or the end of the input. -/
theorem Awaits.eof_or_kind_eq (h : p.Awaits ts) :
    p.current.kind = .eof ∨ ∃ t ∈ ts.head?, p.current.kind = t.kind := by
  cases ts with
  | nil => exact .inl h.kind_of_nil
  | cons t ts =>
    rcases h.cons with ⟨hlooks, -⟩ | ⟨heof, -⟩
    · exact .inr ⟨t, rfl, hlooks.1⟩
    · exact .inl heof

/-- One token has been read. -/
theorem Awaits.reaches (h : p.Awaits (t :: ts)) : p.Reaches ts p :=
  ⟨h.advance, rfl⟩

end Parser

namespace Parse

open MonkeySyntax.Parser

/-- The first of the tokens binds at most so tightly, and is not `else`. -/
def Follows (power : Nat) (ts : List Token) : Prop :=
  ∀ t ∈ ts.head?, t.kind.level.power ≤ power ∧ t.kind ≠ .elseKeyword

theorem Follows.mono {power power' : Nat} {ts : List Token} (h : Follows power ts)
    (hle : power ≤ power') : Follows power' ts :=
  fun t ht => ⟨Nat.le_trans (h t ht).1 hle, (h t ht).2⟩

theorem follows_cons {power : Nat} {t : Token} {ts : List Token} (hl : t.kind.level.power ≤ power)
    (he : t.kind ≠ .elseKeyword) : Follows power (t :: ts) := by
  intro u hu
  obtain rfl : t = u := Option.some.inj hu
  exact ⟨hl, he⟩

/-- What follows a statement, once its semicolon has been passed. -/
def withoutSemicolon : List Token → List Token
  | [] => []
  | t :: ts => if t.kind = .semicolon then ts else t :: ts

/-- The floor that an expression satisfies, given the one it was spelled against. As every operator
binds more tightly than the lowest level, the floors up to the next level are all the same. -/
def effective (floor : Nat) : Nat :=
  max floor (Level.lowest.power + 1)

/-- A call for an expression that satisfies the floor reads no less than the whole of it. -/
structure Takes (prec floor : Nat) : Prop where
  lowest_le : Level.lowest.power ≤ prec
  le_unary : prec ≤ Level.unary.power
  min_le : min (prec + 1) Level.unary.power ≤ effective floor

/-- Where the tokens of the phrase are ahead, reading restores the tree. -/
def Restores (σ : Type) [TokenStream σ] : Phrase → List Token → Prop
  | .expression floor e, ts =>
    -- The loop goes on behind the tokens, with the expression as its left operand.
    ∀ (N prec : Nat) (p : Parser σ) (post : List Token) (D : Node → Parser σ → Prop),
      Takes prec floor → p.Awaits (ts ++ post) → Follows (effective floor) post →
      (∀ bound left q, left.same e → p.Reaches post q →
        ((rounds (operatorsRound (expression N) (N + 1) prec) bound left).run q).Meets True D
          fun _ => False) →
      ((expression (N + 1) prec).run p).Meets True D fun _ => False
  | .items es, ts => ∀ (N bound : Nat) (p q : Parser σ) (close : Token) (post : List Token),
      close.kind = .rightParen ∨ close.kind = .rightBracket →
      p.Reaches (ts ++ close :: post) q →
      ((expressionList (expression N) bound close.kind).run q).Meets True
        (fun es' r => Node.sameEach es' es ∧ p.Reaches post r) fun _ => False
  | .moreItems es, ts => ∀ (N bound : Nat) (before : List Node) (p q : Parser σ) (close : Token)
      (post : List Token),
      close.kind = .rightParen ∨ close.kind = .rightBracket →
      p.Reaches (ts ++ close :: post) q →
      ((rounds (expressionsRound (expression N)) bound before).run q).Meets True
        (fun es' r => (∃ behind, es' = before ++ behind ∧ Node.sameEach behind es) ∧
          p.Reaches (close :: post) r) fun _ => False
  | .names ns, ts => ∀ (bound : Nat) (p q : Parser σ) (close : Token) (post : List Token),
      close.kind = .rightParen → p.Reaches (ts ++ close :: post) q →
      ((parameters bound).run q).Meets True
        (fun ns' r => Node.sameEach ns' ns ∧ p.Reaches post r) fun _ => False
  | .moreNames ns, ts => ∀ (bound : Nat) (before : List Node) (p q : Parser σ) (close : Token)
      (post : List Token),
      close.kind = .rightParen → p.Reaches (ts ++ close :: post) q →
      ((rounds parametersRound bound before).run q).Meets True
        (fun ns' r => (∃ behind, ns' = before ++ behind ∧ Node.sameEach behind ns) ∧
          p.Reaches (close :: post) r) fun _ => False
  | .block b, ts => ∀ (N bound : Nat) (p : Parser σ) (post : List Token),
      p.Awaits (ts ++ post) →
      ((block (expression N) bound).run p).Meets True
        (fun b' q => b'.same b ∧ p.Reaches post q) fun _ => False
  | .statement s, ts => ∀ (N : Nat) (p : Parser σ) (post : List Token),
      p.Awaits (ts ++ post) → Follows Level.lowest.power post →
      ((statement (expression N)).run p).Meets True
        (fun s' q => s'.same s ∧ p.Reaches (withoutSemicolon post) q) fun _ => False
  | .statements ss, ts => ∀ (N fuel bound : Nat) (ends : TokenKind → Bool) (before : List Node)
      (p : Parser σ) (post : List Token),
      (∀ k, k.BeginsStatement → ends k = false) →
      (∀ q : Parser σ, q.Awaits post → ends q.current.kind = true) →
      (∀ t ∈ post.head?, t.kind = .rightBrace) → p.Awaits (ts ++ post) →
      ((rounds (statementsRound (expression N) fuel ends) bound before).run p).Meets True
        (fun ss' q => (∃ behind, ss' = before ++ behind ∧ Node.sameEach behind ss) ∧
          q.Awaits post ∧ q.diagnostics = p.diagnostics) fun _ => False

variable {σ : Type} [TokenStream σ] [LawfulTokenStream σ] {p q : Parser σ} {t : Token}
  {ts us post : List Token} {floor prec : Nat} {e l r : Node}

/-! ### Tools -/

theorem expect_restores (h : p.Reaches (t :: ts) q) {kind : TokenKind} (ht : t.kind = kind)
    (hk : kind ≠ .rightBrace) {R : Parser σ → Prop} :
    ((expect kind).run q).Meets True (fun _ r => p.Reaches ts r) R := by
  have hpeek : q.peek.kind = kind := (h.awaits.kind_eq (ht ▸ hk)).trans ht
  refine meets_expect (fun _ => h.trans h.awaits.reaches) fun hne => absurd hpeek hne

/-- Where no more tightly binding operator follows, the loop over operators stops. -/
theorem operatorsRounds_stop {expr : Nat → Parse σ Node} {fuel bound : Nat} {left : Node}
    (hawaits : q.advance.Awaits post) (hpost : Follows prec post)
    (hprec : Level.lowest.power ≤ prec) {D : Node → Parser σ → Prop} {R : Parser σ → Prop}
    (hD : D left q) :
    ((rounds (operatorsRound expr fuel prec) bound left).run q).Meets True D R := by
  have hlevel : q.peek.kind.level.power ≤ prec := by
    rw [← current_advance]
    rcases hawaits.eof_or_kind_eq with heof | ⟨t, ht, hkind⟩
    · rw [heof]
      exact hprec
    · rw [hkind]
      exact (hpost t ht).1
  cases bound with
  | zero => exact trivial
  | succ bound =>
    rw [rounds, meets_bind, operatorsRound, meets_bind, meets_peek,
      if_neg fun h => Nat.not_lt.2 hlevel h.2]
    exact hD

/-- **An expression on its own.** When what follows it does not bind more tightly than what it was
asked for, reading ends behind it. -/
theorem Restores.expression_meets (h : Restores σ (.expression floor e) ts) (hf : Takes prec floor)
    (hp : p.Awaits (ts ++ post)) (hpost : Follows prec post) (N : Nat) :
    ((expression N prec).run p).Meets True (fun e' q => e'.same e ∧ p.Reaches post q)
      fun _ => False := by
  cases N with
  | zero => exact trivial
  | succ N =>
    have hle : prec ≤ effective floor := by
      have hmin := hf.min_le
      have hunary := hf.le_unary
      omega
    refine h N prec p post _ hf hp (hpost.mono hle) fun bound left q hleft hq => ?_
    exact operatorsRounds_stop hq.awaits hpost hf.lowest_le ⟨hleft, hq⟩

theorem takes_lowest (floor : Nat) : Takes Level.lowest.power floor where
  lowest_le := Nat.le_refl _
  le_unary := by decide
  min_le := Nat.le_trans (Nat.min_le_left _ _) (Nat.le_max_right _ _)

/-- An expression inside a rule, read behind what the rule has read so far. -/
theorem Restores.next (h : Restores σ (.expression floor e) ts) (hf : Takes prec floor)
    (hq : p.Reaches (ts ++ post) q) (hpost : Follows prec post) (N : Nat) :
    ((expression N prec).run q.advance).Meets True (fun e' r => e'.same e ∧ p.Reaches post r)
      fun _ => False :=
  (h.expression_meets hf hq.awaits hpost N).mono (fun _ _ hr => ⟨hr.1, hq.trans hr.2⟩) fun _ h => h

omit [LawfulTokenStream σ] in
/-- A form that is read by a rule of its own. -/
theorem restores_of_prefixRule
    (h : ∀ (N : Nat) (p : Parser σ) (post : List Token), p.Awaits (ts ++ post) →
      Follows (effective floor) post →
      ∃ rule, prefixRule (expression N) (N + 1) p.current.kind = some rule ∧
        (rule.run p).Meets True (fun left q => left.same e ∧ p.Reaches post q) fun _ => False) :
    Restores σ (.expression floor e) ts := by
  intro N prec p post D _ hp hpost hloop
  obtain ⟨rule, hrule, hmeets⟩ := h N p post hp hpost
  rw [expression, meets_bind, meets_current, hrule, meets_bind]
  exact hmeets.mono (fun left q hq => hloop _ left q hq.1 hq.2) fun _ h => h

/-- A form that is its one token. -/
theorem restores_of_token (ht : t.kind ≠ .rightBrace)
    (h : ∀ (N : Nat) (p : Parser σ), p.current.LooksLike t →
      ∃ rule, prefixRule (expression N) (N + 1) p.current.kind = some rule ∧
        (rule.run p).Meets True (fun left q => left.same e ∧ q = p) fun _ => False) :
    Restores σ (.expression floor e) [t] := by
  refine restores_of_prefixRule fun N p post hp _ => ?_
  obtain ⟨rule, hrule, hmeets⟩ := h N p (hp.looksLike ht)
  refine ⟨rule, hrule, hmeets.mono (fun left q hq => ?_) fun _ h => h⟩
  obtain ⟨hsame, rfl⟩ := hq
  exact ⟨hsame, hp.reaches⟩

/-! ### Names and literals -/

theorem restores_identifier (ht : t.kind = .identifier) :
    Restores σ (.expression floor (.identifier t t.literal)) [t] := by
  refine restores_of_token (ht ▸ by decide) fun N p hp => ⟨identifier, ?_, ?_⟩
  · rw [hp.1, ht]
    rfl
  · simp only [identifier, meets_bind, meets_current, meets_pure]
    exact ⟨by simp [hp.2], trivial⟩

theorem restores_integer {n : Int} (ht : t.kind = .int) (hn : Numeral.value? t.literal = some n) :
    Restores σ (.expression floor (.integer t (.number n))) [t] := by
  refine restores_of_token (ht ▸ by decide) fun N p hp => ⟨integer, ?_, ?_⟩
  · rw [hp.1, ht]
    rfl
  · simp only [integer, meets_bind, meets_current, hp.2, hn, meets_pure]
    exact ⟨by simp, trivial⟩

theorem restores_boolean {b : Bool} (ht : t.kind = if b then .trueKeyword else .falseKeyword) :
    Restores σ (.expression floor (.boolean t b)) [t] := by
  refine restores_of_token (by cases b <;> simp [ht]) fun N p hp => ⟨boolean, ?_, ?_⟩
  · rw [hp.1, ht]
    cases b <;> rfl
  · simp only [boolean, meets_bind, meets_current, hp.1, meets_pure]
    exact ⟨by cases b <;> simp [ht], trivial⟩

theorem restores_string (ht : t.kind = .string) :
    Restores σ (.expression floor (.string t t.literal)) [t] := by
  refine restores_of_token (ht ▸ by decide) fun N p hp => ⟨string, ?_, ?_⟩
  · rw [hp.1, ht]
    rfl
  · simp only [string, meets_bind, meets_current, meets_pure]
    exact ⟨by simp [hp.2], trivial⟩

/-! ### Operations -/

theorem not_rightBrace_of_isUnary (h : t.kind.IsUnary) : t.kind ≠ .rightBrace := by
  rcases h with h | h <;> simp [h]

theorem not_rightBrace_of_isBinary {k : TokenKind} (h : k.IsBinary) : k ≠ .rightBrace := by
  rintro rfl
  exact absurd h (by decide)

theorem restores_unary (hf : floor ≤ Level.unary.power) (ht : t.kind.IsUnary)
    (he : Restores σ (.expression Level.unary.power e) ts) :
    Restores σ (.expression floor (.unary t t.literal e)) (t :: ts) := by
  refine restores_of_prefixRule fun N p post hp hpost => ⟨unary (expression N), ?_, ?_⟩
  · rw [hp.kind_eq (not_rightBrace_of_isUnary ht)]
    rcases ht with ht | ht <;> rw [ht] <;> rfl
  · have hlooks := hp.looksLike (not_rightBrace_of_isUnary ht)
    have htakes : Takes Level.unary.power Level.unary.power := ⟨by decide, by decide, by decide⟩
    have hpost : Follows Level.unary.power post :=
      hpost.mono (Nat.max_le.2 ⟨hf, by decide⟩)
    simp only [unary, meets_bind, meets_current, meets_advance, meets_pure]
    refine (he.next htakes hp.reaches hpost N).mono (fun e' q hq => ?_) fun _ h => h
    exact ⟨by simp [hlooks.2, hq.1], hq.2⟩

omit [LawfulTokenStream σ] in
theorem infixRule_of_isBinary {expr : Nat → Parse σ Node} {fuel : Nat} {k : TokenKind}
    (h : k.IsBinary) : infixRule expr fuel k = some (binary expr) := by
  revert h
  cases k <;> first | exact fun _ => rfl | exact fun h => absurd h (by decide)

/-- One more operator and its right operand: the loop goes one round further. -/
theorem restores_binary (hf : floor ≤ t.kind.level.power) (ht : t.kind.IsBinary)
    (hl : Restores σ (.expression t.kind.level.power l) ts)
    (hr : Restores σ (.expression (t.kind.level.power + 1) r) us) :
    Restores σ (.expression floor (.binary t l t.literal r)) (ts ++ t :: us) := by
  intro N prec p post D htakes hp hpost hloop
  have hlevel := ht.level
  have hunary : Level.unary.power = 6 := rfl
  have heffective : effective floor ≤ t.kind.level.power := Nat.max_le.2 ⟨hf, hlevel.1⟩
  have hmin := htakes.min_le
  have hprec : prec < t.kind.level.power := by omega
  rw [List.append_assoc, List.cons_append] at hp
  -- The left operand is what the loop has collected when it meets the operator.
  refine hl N prec p (t :: (us ++ post)) D ⟨htakes.lowest_le, htakes.le_unary, ?_⟩ hp ?_ ?_
  · exact Nat.le_trans hmin (Nat.le_trans heffective (Nat.le_max_left _ _))
  · refine follows_cons (Nat.le_max_left _ _) ?_
    intro h
    rw [h] at ht
    exact absurd ht (by decide)
  · intro bound left q hleft hq
    have hlooks : q.peek.LooksLike t := hq.awaits.looksLike (not_rightBrace_of_isBinary ht)
    cases bound with
    | zero => exact trivial
    | succ bound =>
      have hcond : q.peek.kind ≠ .semicolon ∧ prec < q.peek.kind.level.power := by
        rw [hlooks.1]
        refine ⟨?_, hprec⟩
        intro h
        rw [h] at ht
        exact absurd ht (by decide)
      rw [rounds, meets_bind, operatorsRound, meets_bind, meets_peek, if_pos hcond, hlooks.1,
        infixRule_of_isBinary ht]
      simp only [binary, meets_bind, meets_current, meets_advance, meets_pure, current_advance]
      -- The right operand takes in what binds more tightly than the operator, and no more.
      have hright : Takes q.peek.kind.level.power (t.kind.level.power + 1) := by
        rw [hlooks.1]
        refine ⟨Nat.le_of_lt hlevel.1, Nat.le_of_lt hlevel.2, ?_⟩
        exact Nat.le_trans (Nat.min_le_left _ _) (Nat.le_max_left _ _)
      have hpost : Follows q.peek.kind.level.power post := by
        rw [hlooks.1]
        exact hpost.mono heffective
      have hq' : p.Reaches (us ++ post) q.advance := hq.trans hq.awaits.reaches
      refine (hr.next hright hq' hpost N).mono (fun e' r hr => ?_) fun _ h => h
      exact hloop bound _ r (by simp [hleft, hlooks.2, hr.1]) hr.2

/-- Arguments in parentheses: the loop goes one round further as well. -/
theorem restores_call {close : Token} {args : List Node} (ht : t.kind = .leftParen)
    (hf : Restores σ (.expression Level.call.power l) ts) (hargs : Restores σ (.items args) us)
    (hclose : close.kind = .rightParen) :
    Restores σ (.expression floor (.call t l args)) (ts ++ t :: (us ++ [close])) := by
  intro N prec p post D htakes hp hpost hloop
  have hunary := htakes.le_unary
  rw [show ts ++ t :: (us ++ [close]) ++ post = ts ++ t :: (us ++ close :: post) by simp] at hp
  -- So is what is called. A call binds more tightly than anything an expression is asked for.
  refine hf N prec p (t :: (us ++ close :: post)) D ⟨htakes.lowest_le, hunary, ?_⟩ hp ?_ ?_
  · exact Nat.le_trans (Nat.min_le_right _ _) (by decide)
  · exact follows_cons (by rw [ht]; decide) (by simp [ht])
  · intro bound left q hleft hq
    have hpeek : q.peek.kind = .leftParen := (hq.awaits.kind_eq (by simp [ht])).trans ht
    cases bound with
    | zero => exact trivial
    | succ bound =>
      have hcond : q.peek.kind ≠ .semicolon ∧ prec < q.peek.kind.level.power := by
        rw [hpeek]
        exact ⟨by decide, Nat.lt_of_le_of_lt hunary (by decide)⟩
      rw [rounds, meets_bind, operatorsRound, meets_bind, meets_peek, if_pos hcond, hpeek]
      simp only [infixRule, call, meets_bind, meets_current, meets_advance, meets_pure]
      have hq' : p.Reaches (us ++ close :: post) q.advance := hq.trans hq.awaits.reaches
      have hmeets := hargs N (N + 1) p q.advance close post (.inl hclose) hq'
      rw [hclose] at hmeets
      refine hmeets.mono (fun args' r hr => ?_) fun _ h => h
      exact hloop bound _ r (by simp [hleft, hr.1]) hr.2

theorem restores_grouped {opening close : Token} (ho : opening.kind = .leftParen)
    (he : Restores σ (.expression 0 e) ts) (hc : close.kind = .rightParen) :
    Restores σ (.expression floor e) (opening :: (ts ++ [close])) := by
  refine restores_of_prefixRule fun N p post hp _ => ⟨grouped (expression N), ?_, ?_⟩
  · rw [hp.kind_eq (by simp [ho]), ho]
    rfl
  · have hp' : p.Reaches (ts ++ close :: post) p := by simpa using hp.reaches
    have hpost : Follows Level.lowest.power (close :: post) :=
      follows_cons (by rw [hc]; decide) (by simp [hc])
    simp only [grouped, meets_bind, meets_advance, meets_pure]
    refine (he.next (takes_lowest 0) hp' hpost N).mono (fun e' q hq => ?_) fun _ h => h
    exact (expect_restores hq.2 hc (by decide)).mono (fun _ r hr => ⟨hq.1, hr⟩) fun _ h => h

/-! ### Lists -/

theorem beginsExpression_ne {k : TokenKind} (h : k.BeginsExpression) :
    k ≠ .rightBrace ∧ k ≠ .rightParen ∧ k ≠ .rightBracket := by
  refine ⟨?_, ?_, ?_⟩ <;>
  · rintro rfl
    exact absurd h (by decide)

theorem restores_noItems : Restores σ (.items []) [] := by
  intro N bound p q close post hclose hq
  have hpeek : q.peek.kind = close.kind :=
    hq.awaits.kind_eq (by rcases hclose with h | h <;> simp [h])
  rw [expressionList, meets_bind, meets_peek, if_pos hpeek]
  exact ⟨rfl, hq.trans hq.awaits.reaches⟩

theorem restores_noMoreItems : Restores σ (.moreItems []) [] := by
  intro N bound before p q close post hclose hq
  have hpeek : q.peek.kind = close.kind :=
    hq.awaits.kind_eq (by rcases hclose with h | h <;> simp [h])
  cases bound with
  | zero => exact trivial
  | succ bound =>
    have hcomma : q.peek.kind ≠ .comma := by
      rw [hpeek]
      rcases hclose with h | h <;> simp [h]
    rw [rounds, meets_bind, expressionsRound, meets_bind, meets_peek, if_neg hcomma]
    exact ⟨⟨[], by simp, rfl⟩, hq⟩

/-- Behind an item of a list comes a comma or the end of the list. -/
theorem follows_item {es : List Node} {close : Token} (h : Spells (.moreItems es) us)
    (hclose : close.kind = .rightParen ∨ close.kind = .rightBracket) :
    Follows Level.lowest.power (us ++ close :: post) := by
  cases h with
  | noMoreItems =>
    rcases hclose with h | h <;> exact follows_cons (by rw [h]; decide) (by simp [h])
  | moreItems hk => exact follows_cons (by rw [hk]; decide) (by simp [hk])

theorem restores_moreItems {comma : Token} {es : List Node} (hk : comma.kind = .comma)
    (he : Restores σ (.expression 0 e) ts) (hspells : Spells (.moreItems es) us)
    (hes : Restores σ (.moreItems es) us) :
    Restores σ (.moreItems (e :: es)) (comma :: (ts ++ us)) := by
  intro N bound before p q close post hclose hq
  have hpeek : q.peek.kind = .comma := (hq.awaits.kind_eq (by simp [hk])).trans hk
  cases bound with
  | zero => exact trivial
  | succ bound =>
    rw [rounds, meets_bind, expressionsRound, meets_bind, meets_peek, if_pos hpeek]
    have hq' : p.Reaches (ts ++ (us ++ close :: post)) q.advance := by
      simpa using hq.trans hq.awaits.reaches
    simp only [meets_bind, meets_advance, meets_pure]
    refine (he.next (takes_lowest 0) hq' (follows_item hspells hclose) N).mono
      (fun e' r hr => ?_) fun _ h => h
    refine (hes N bound (before ++ [e']) p r close post hclose hr.2).mono
      (fun es' r' hr' => ⟨?_, hr'.2⟩) fun _ h => h
    obtain ⟨behind, rfl, hsame⟩ := hr'.1
    exact ⟨e' :: behind, by simp, by simp [hr.1, hsame]⟩

theorem restores_items {es : List Node} (hspells : Spells (.expression 0 e) ts)
    (he : Restores σ (.expression 0 e) ts) (hspells' : Spells (.moreItems es) us)
    (hes : Restores σ (.moreItems es) us) : Restores σ (.items (e :: es)) (ts ++ us) := by
  intro N bound p q close post hclose hq
  have hq' : p.Reaches (ts ++ (us ++ close :: post)) q := by simpa using hq
  -- The list is not empty, since an expression does not begin like the end of a list.
  have hne : q.peek.kind ≠ close.kind := by
    obtain ⟨t, ts', rfl, hbegins⟩ := hspells.exists_expression_eq_cons
    obtain ⟨hbrace, hparen, hbracket⟩ := beginsExpression_ne hbegins
    have hpeek : q.peek.kind = t.kind := hq'.awaits.kind_eq hbrace
    rw [hpeek]
    rcases hclose with h | h <;> rw [h]
    · exact hparen
    · exact hbracket
  have hbrace : close.kind ≠ .rightBrace := by rcases hclose with h | h <;> simp [h]
  rw [expressionList, meets_bind, meets_peek, if_neg hne]
  simp only [meets_bind, meets_advance, meets_pure]
  refine (he.next (takes_lowest 0) hq' (follows_item hspells' hclose) N).mono
    (fun e' r hr => ?_) fun _ h => h
  refine (hes N bound [e'] p r close post hclose hr.2).mono (fun es' r' hr' => ?_) fun _ h => h
  obtain ⟨⟨behind, rfl, hsame⟩, hreaches⟩ := hr'
  exact (expect_restores hreaches rfl hbrace).mono
    (fun _ r hr' => ⟨by simp [hr.1, hsame], hr'⟩) fun _ h => h

theorem restores_array {close : Token} {es : List Node} (ht : t.kind = .leftBracket)
    (hes : Restores σ (.items es) ts) (hc : close.kind = .rightBracket) :
    Restores σ (.expression floor (.array t es)) (t :: (ts ++ [close])) := by
  refine restores_of_prefixRule fun N p post hp _ => ⟨array (expression N) (N + 1), ?_, ?_⟩
  · rw [hp.kind_eq (by simp [ht]), ht]
    rfl
  · have hp' : p.Reaches (ts ++ close :: post) p := by simpa using hp.reaches
    have hmeets := hes N (N + 1) p p close post (.inr hc) hp'
    rw [hc] at hmeets
    simp only [array, meets_bind, meets_current, meets_pure]
    exact hmeets.mono (fun es' q hq => ⟨by simp [hq.1], hq.2⟩) fun _ h => h

theorem restores_noNames : Restores σ (.names []) [] := by
  intro bound p q close post hclose hq
  have hpeek : q.peek.kind = .rightParen := (hq.awaits.kind_eq (by simp [hclose])).trans hclose
  rw [parameters, meets_bind, meets_peek, if_pos hpeek]
  exact ⟨rfl, hq.trans hq.awaits.reaches⟩

theorem restores_noMoreNames : Restores σ (.moreNames []) [] := by
  intro bound before p q close post hclose hq
  have hpeek : q.peek.kind = .rightParen := (hq.awaits.kind_eq (by simp [hclose])).trans hclose
  cases bound with
  | zero => exact trivial
  | succ bound =>
    rw [rounds, meets_bind, parametersRound, meets_bind, meets_peek, if_neg (by simp [hpeek])]
    exact ⟨⟨[], by simp, rfl⟩, hq⟩

theorem restores_moreNames {comma : Token} {ns : List Node} (hk : comma.kind = .comma)
    (ht : t.kind = .identifier) (hns : Restores σ (.moreNames ns) us) :
    Restores σ (.moreNames (.identifier t t.literal :: ns)) (comma :: t :: us) := by
  intro bound before p q close post hclose hq
  have hpeek : q.peek.kind = .comma := (hq.awaits.kind_eq (by simp [hk])).trans hk
  cases bound with
  | zero => exact trivial
  | succ bound =>
    rw [rounds, meets_bind, parametersRound, meets_bind, meets_peek, if_pos hpeek]
    have hq' : p.Reaches (t :: (us ++ close :: post)) q.advance := hq.trans hq.awaits.reaches
    have hlooks : q.advance.peek.LooksLike t := hq'.awaits.looksLike (by simp [ht])
    simp only [identifier, meets_bind, meets_advance, meets_current, meets_pure]
    refine meets_expect (fun _ => ?_) fun hne => absurd (hlooks.1.trans ht) hne
    refine (hns bound _ p _ close post hclose (hq'.trans hq'.awaits.reaches)).mono
      (fun ns' r hr => ⟨?_, hr.2⟩) fun _ h => h
    obtain ⟨behind, rfl, hsame⟩ := hr.1
    have hliteral : q.advance.advance.current.literal = t.literal := hlooks.2
    exact ⟨_ :: behind, List.append_assoc _ _ _, by
      rw [Node.sameEach_cons_cons, Node.same_identifier, hliteral, hsame, beq_self_eq_true]
      rfl⟩

theorem restores_names {ns : List Node} (ht : t.kind = .identifier)
    (hns : Restores σ (.moreNames ns) us) :
    Restores σ (.names (.identifier t t.literal :: ns)) (t :: us) := by
  intro bound p q close post hclose hq
  have hq : p.Reaches (t :: (us ++ close :: post)) q := hq
  have hlooks : q.peek.LooksLike t := hq.awaits.looksLike (by simp [ht])
  have hpeek : q.peek.kind = .identifier := hlooks.1.trans ht
  rw [parameters, meets_bind, meets_peek, if_neg (by simp [hpeek])]
  simp only [identifier, meets_bind, meets_current, meets_pure]
  refine meets_expect (fun _ => ?_) fun hne => absurd hpeek hne
  refine (hns bound _ p _ close post hclose (hq.trans hq.awaits.reaches)).mono
    (fun ns' r hr => ?_) fun _ h => h
  obtain ⟨⟨behind, rfl, hsame⟩, hreaches⟩ := hr
  exact (expect_restores hreaches hclose (by decide)).mono
    (fun _ r hr' => ⟨by simp [hlooks.2, hsame], hr'⟩) fun _ h => h

/-! ### Blocks -/

theorem beginsStatement_ne {k : TokenKind} (h : k.BeginsStatement) :
    k ≠ .rightBrace ∧ k ≠ .eof ∧ k ≠ .semicolon ∧ k ≠ .elseKeyword := by
  refine ⟨?_, ?_, ?_, ?_⟩ <;>
  · rintro rfl
    revert h
    simp [TokenKind.BeginsStatement, TokenKind.BeginsExpression]

theorem restores_block {close : Token} {ss : List Node}
    (hss : Restores σ (.statements ss) ts) (hc : close.kind = .rightBrace) :
    Restores σ (.block (.block t ss)) (t :: (ts ++ [close])) := by
  intro N bound p post hp
  have hbody : p.advance.Awaits (ts ++ close :: post) := by simpa using hp.advance
  have hbegins (k : TokenKind) (hk : k.BeginsStatement) : endsBlock k = false := by
    obtain ⟨hbrace, heof, -⟩ := beginsStatement_ne hk
    simp [endsBlock, hbrace, heof]
  -- The block ends on its brace, or at the end of the input if the brace is missing.
  have hends (q : Parser σ) (hq : q.Awaits (close :: post)) : endsBlock q.current.kind = true := by
    rcases hq.cons with ⟨hlooks, -⟩ | ⟨heof, -⟩
    · simp [endsBlock, hlooks.1, hc]
    · simp [endsBlock, heof]
  simp only [block, statements, meets_bind, meets_current, meets_advance, meets_closeBlock,
    meets_pure]
  refine (hss N bound bound endsBlock [] p.advance (close :: post) hbegins hends
    (by simp [hc]) hbody).mono (fun ss' q hq => ?_) fun _ h => h
  obtain ⟨⟨behind, rfl, hsame⟩, hawaits, hdiagnostics⟩ := hq
  refine ⟨by simpa using hsame, ⟨?_, ?_⟩, ?_⟩
  · exact ((genuine_closeBlock q).2 hawaits.genuine).advance
  · simpa using hawaits.advance.exists_closers
  · simpa using hdiagnostics

/-- A block where a rule expects one. -/
theorem expect_block_restores {b : Node} (hb : Spells (.block b) ts)
    (hbs : Restores σ (.block b) ts) (hq : p.Reaches (ts ++ post) q) (N bound : Nat) :
    ((expect .leftBrace).run q).Meets True
      (fun _ r => ((block (expression N) bound).run r).Meets True
        (fun b' r => b'.same b ∧ p.Reaches post r) fun _ => False) fun _ => False := by
  cases hb with
  | block ht =>
    have hpeek : q.peek.kind = .leftBrace := (hq.awaits.kind_eq (by simp [ht])).trans ht
    refine meets_expect (fun _ => ?_) fun hne => absurd hpeek hne
    exact (hbs N bound q.advance post hq.awaits).mono
      (fun b' r hr => ⟨hr.1, hq.trans hr.2⟩) fun _ h => h

/-! ### Conditionals and functions -/

/-- Up to the end of its first block, a conditional is read in the same way with and without an
alternative. -/
theorem conditional_restores {opening close : Token} {c b : Node} {cs bs : List Token}
    {D : Node → Parser σ → Prop} (ho : opening.kind = .leftParen)
    (hcs : Restores σ (.expression 0 c) cs) (hc : close.kind = .rightParen)
    (hb : Spells (.block b) bs) (hbs : Restores σ (.block b) bs)
    (hp : p.Reaches (opening :: (cs ++ close :: (bs ++ post))) p) (N bound : Nat)
    (hD : ∀ c' b' q, c'.same c → b'.same b → p.Reaches post q →
      ((alternative (expression N) bound).run q).Meets True
        (fun o r => D (.conditional p.current c' b' o) r) fun _ => False) :
    ((conditional (expression N) bound).run p).Meets True D fun _ => False := by
  have hpost : Follows Level.lowest.power (close :: (bs ++ post)) :=
    follows_cons (by rw [hc]; decide) (by simp [hc])
  simp only [conditional, meets_bind, meets_current, meets_advance, meets_pure]
  -- The condition, in its parentheses.
  refine (expect_restores hp ho (by decide)).mono (fun _ q hq => ?_) fun _ h => h
  refine (hcs.next (takes_lowest 0) hq hpost N).mono (fun c' q hq => ?_) fun _ h => h
  obtain ⟨hcsame, hq⟩ := hq
  refine (expect_restores hq hc (by decide)).mono (fun _ q hq => ?_) fun _ h => h
  -- The first block.
  refine (expect_block_restores hb hbs hq N bound).mono (fun _ q hq => ?_) fun _ h => h
  exact hq.mono (fun b' q hq => hD c' b' q hcsame hq.1 hq.2) fun _ h => h

theorem restores_conditional {opening close : Token} {c b : Node} {cs bs : List Token}
    (ht : t.kind = .ifKeyword) (ho : opening.kind = .leftParen)
    (hcs : Restores σ (.expression 0 c) cs) (hc : close.kind = .rightParen)
    (hb : Spells (.block b) bs) (hbs : Restores σ (.block b) bs) :
    Restores σ (.expression floor (.conditional t c b none))
      (t :: opening :: (cs ++ close :: bs)) := by
  refine restores_of_prefixRule fun N p post hp hpost =>
    ⟨conditional (expression N) (N + 1), ?_, ?_⟩
  · rw [hp.kind_eq (by simp [ht]), ht]
    rfl
  · have hp' : p.Reaches (opening :: (cs ++ close :: (bs ++ post))) p := by
      simpa using hp.reaches
    refine conditional_restores ho hcs hc hb hbs hp' N (N + 1) fun c' b' q hcsame hbsame hq => ?_
    -- What follows does not look like another block of this conditional.
    have helse : q.peek.kind ≠ .elseKeyword := by
      intro h
      rcases hq.awaits.eof_or_kind_eq with heof | ⟨u, hu, hkind⟩
      · exact absurd (h.symm.trans heof) (by decide)
      · exact (hpost u hu).2 (hkind.symm.trans h)
    rw [alternative, meets_bind, meets_peek, if_neg helse]
    exact ⟨by simp [hcsame, hbsame], hq⟩

theorem restores_conditionalElse {opening close els : Token} {c b a : Node}
    {cs bs as : List Token} (ht : t.kind = .ifKeyword) (ho : opening.kind = .leftParen)
    (hcs : Restores σ (.expression 0 c) cs) (hc : close.kind = .rightParen)
    (hb : Spells (.block b) bs) (hbs : Restores σ (.block b) bs) (he : els.kind = .elseKeyword)
    (ha : Spells (.block a) as) (has : Restores σ (.block a) as) :
    Restores σ (.expression floor (.conditional t c b (some a)))
      (t :: opening :: (cs ++ close :: (bs ++ els :: as))) := by
  refine restores_of_prefixRule fun N p post hp _ =>
    ⟨conditional (expression N) (N + 1), ?_, ?_⟩
  · rw [hp.kind_eq (by simp [ht]), ht]
    rfl
  · have hp' : p.Reaches (opening :: (cs ++ close :: (bs ++ els :: (as ++ post)))) p := by
      simpa using hp.reaches
    refine conditional_restores ho hcs hc hb hbs hp' N (N + 1) fun c' b' q hcsame hbsame hq => ?_
    have hpeek : q.peek.kind = .elseKeyword := (hq.awaits.kind_eq (by simp [he])).trans he
    rw [alternative, meets_bind, meets_peek, if_pos hpeek]
    simp only [meets_bind, meets_advance, meets_pure]
    refine (expect_block_restores ha has (hq.trans hq.awaits.reaches) N (N + 1)).mono
      (fun _ q hq => ?_) fun _ h => h
    exact hq.mono (fun a' q hq => ⟨by simp [hcsame, hbsame, hq.1], hq.2⟩) fun _ h => h

theorem restores_function {opening close : Token} {ns : List Node} {b : Node} {bs : List Token}
    (ht : t.kind = .functionKeyword) (ho : opening.kind = .leftParen)
    (hns : Restores σ (.names ns) ts) (hc : close.kind = .rightParen)
    (hb : Spells (.block b) bs) (hbs : Restores σ (.block b) bs) :
    Restores σ (.expression floor (.function t ns b)) (t :: opening :: (ts ++ close :: bs)) := by
  refine restores_of_prefixRule fun N p post hp _ => ⟨function (expression N) (N + 1), ?_, ?_⟩
  · rw [hp.kind_eq (by simp [ht]), ht]
    rfl
  · have hp' : p.Reaches (opening :: (ts ++ close :: (bs ++ post))) p := by
      simpa using hp.reaches
    simp only [function, meets_bind, meets_current, meets_pure]
    refine (expect_restores hp' ho (by decide)).mono (fun _ q hq => ?_) fun _ h => h
    refine (hns (N + 1) p q close (bs ++ post) hc hq).mono (fun ns' q hq => ?_) fun _ h => h
    obtain ⟨hsame, hq⟩ := hq
    refine (expect_block_restores hb hbs hq N (N + 1)).mono (fun _ q hq => ?_) fun _ h => h
    exact hq.mono (fun b' q hq => ⟨by simp [hsame, hq.1], hq.2⟩) fun _ h => h

/-! ### Statements -/

theorem optionalSemicolon_restores (hq : p.Reaches post q) :
    (optionalSemicolon.run q).Meets True (fun _ r => p.Reaches (withoutSemicolon post) r)
      fun _ => False := by
  rw [optionalSemicolon, meets_bind, meets_peek]
  cases post with
  | nil =>
    have heof : q.peek.kind = .eof := hq.awaits.kind_of_nil
    rw [if_neg (by simp [heof])]
    exact hq
  | cons u us =>
    by_cases hu : u.kind = .semicolon
    · have hpeek : q.peek.kind = .semicolon := (hq.awaits.kind_eq (by simp [hu])).trans hu
      rw [if_pos hpeek, withoutSemicolon, if_pos hu]
      exact hq.trans hq.awaits.reaches
    · have hpeek : q.peek.kind ≠ .semicolon := by
        intro h
        rcases hq.awaits.cons with ⟨hlooks, -⟩ | ⟨heof, -⟩
        · exact hu (hlooks.1.symm.trans h)
        · exact absurd (h.symm.trans heof) (by decide)
      rw [if_neg hpeek, withoutSemicolon, if_neg hu]
      exact hq

theorem restores_letStatement {name assign : Token} (ht : t.kind = .letKeyword)
    (hn : name.kind = .identifier) (ha : assign.kind = .assign)
    (he : Restores σ (.expression 0 e) ts) :
    Restores σ (.statement (.letStatement t (.identifier name name.literal) e))
      (t :: name :: assign :: ts) := by
  intro N p post hp hpost
  have hp' : p.Reaches (name :: assign :: (ts ++ post)) p := hp.reaches
  have hlooks : p.peek.LooksLike name := hp'.awaits.looksLike (by simp [hn])
  have hkind : p.current.kind = .letKeyword := (hp.kind_eq (by simp [ht])).trans ht
  rw [statement, meets_bind, meets_current, hkind]
  simp only [letStatement, identifier, meets_bind, meets_current, meets_advance, meets_pure]
  refine meets_expect (fun _ => ?_) fun hne => absurd (hlooks.1.trans hn) hne
  refine (expect_restores (hp'.trans hp'.awaits.reaches) ha (by decide)).mono (fun _ q hq => ?_)
    fun _ h => h
  refine (he.next (takes_lowest 0) hq hpost N).mono (fun e' q hq => ?_) fun _ h => h
  exact (optionalSemicolon_restores hq.2).mono
    (fun _ q hq' => ⟨by simp [hlooks.2, hq.1], hq'⟩) fun _ h => h

theorem restores_returnStatement (ht : t.kind = .returnKeyword)
    (he : Restores σ (.expression 0 e) ts) :
    Restores σ (.statement (.returnStatement t e)) (t :: ts) := by
  intro N p post hp hpost
  have hkind : p.current.kind = .returnKeyword := (hp.kind_eq (by simp [ht])).trans ht
  rw [statement, meets_bind, meets_current, hkind]
  simp only [returnStatement, meets_bind, meets_current, meets_advance, meets_pure]
  refine (he.next (takes_lowest 0) hp.reaches hpost N).mono (fun e' q hq => ?_) fun _ h => h
  exact (optionalSemicolon_restores hq.2).mono
    (fun _ q hq' => ⟨by simp [hq.1], hq'⟩) fun _ h => h

theorem restores_expressionStatement (hspells : Spells (.expression 0 e) ts)
    (he : Restores σ (.expression 0 e) ts) :
    Restores σ (.statement (.expressionStatement t e)) ts := by
  intro N p post hp hpost
  obtain ⟨u, us, rfl, hu⟩ := hspells.exists_expression_eq_cons
  have hkind : p.current.kind = u.kind := hp.kind_eq (beginsExpression_ne hu).1
  rw [statement, meets_bind, meets_current]
  -- No expression begins with a keyword of the other two statements.
  split
  · next hk =>
    rw [← hkind, hk] at hu
    exact absurd hu (by decide)
  · next hk =>
    rw [← hkind, hk] at hu
    exact absurd hu (by decide)
  · simp only [expressionStatement, meets_bind, meets_current, meets_pure]
    refine (he.expression_meets (takes_lowest 0) hp hpost N).mono (fun e' q hq => ?_) fun _ h => h
    exact (optionalSemicolon_restores hq.2).mono
      (fun _ q hq' => ⟨by simp [hq.1], hq'⟩) fun _ h => h

/-! ### Sequences of statements -/

omit [LawfulTokenStream σ] in
theorem restores_noStatements : Restores σ (.statements []) [] := by
  intro N fuel bound ends before p post _ hends _ hp
  cases bound with
  | zero => exact trivial
  | succ bound =>
    rw [rounds, meets_bind, statementsRound, meets_bind, meets_current, if_pos (hends p hp)]
    exact ⟨⟨[], by simp, rfl⟩, hp, rfl⟩

/-- A statement before others, with something or nothing between them. -/
theorem restores_statements_cons (between : List Token) {s : Node} {ss : List Node}
    (hspells : Spells (.statement s) ts) (hs : Restores σ (.statement s) ts)
    (hss : Restores σ (.statements ss) us)
    (hbetween : ∀ post : List Token, (∀ t ∈ post.head?, t.kind = .rightBrace) →
      Follows Level.lowest.power (between ++ (us ++ post)) ∧
        withoutSemicolon (between ++ (us ++ post)) = us ++ post) :
    Restores σ (.statements (s :: ss)) (ts ++ (between ++ us)) := by
  intro N fuel bound ends before p post hbegins hends hpost hp
  obtain ⟨hfollows, hwithout⟩ := hbetween post hpost
  have hp : p.Awaits (ts ++ (between ++ (us ++ post))) := by simpa using hp
  cases bound with
  | zero => exact trivial
  | succ bound =>
    -- The sequence goes on, because a statement begins here.
    have hcurrent : ends p.current.kind = false := by
      obtain ⟨u, us', rfl, hu⟩ := hspells.exists_statement_eq_cons
      rw [hp.kind_eq (beginsStatement_ne hu).1]
      exact hbegins _ hu
    rw [rounds, meets_bind, statementsRound, meets_bind, meets_current, if_neg (by simp [hcurrent])]
    simp only [meets_bind, meets_attempt]
    refine (hs N p _ hp hfollows).mono (fun s' q hq => ?_) fun _ h => h.elim
    obtain ⟨hsame, hq⟩ := hq
    rw [hwithout] at hq
    refine (hss N fuel bound ends (before ++ [s']) q.advance post hbegins hends hpost
      hq.awaits).mono (fun ss' r hr => ?_) fun _ h => h
    obtain ⟨⟨behind, rfl, hbehind⟩, hawaits, hdiagnostics⟩ := hr
    exact ⟨⟨s' :: behind, by simp, by simp [hsame, hbehind]⟩, hawaits,
      hdiagnostics.trans hq.diagnostics_eq⟩

theorem restores_terminated {s : Node} {ss : List Node} {semicolon : Token}
    (hspells : Spells (.statement s) ts) (hs : Restores σ (.statement s) ts)
    (hk : semicolon.kind = .semicolon) (hss : Restores σ (.statements ss) us) :
    Restores σ (.statements (s :: ss)) (ts ++ semicolon :: us) := by
  refine restores_statements_cons [semicolon] hspells hs hss fun post _ => ⟨?_, ?_⟩
  · exact follows_cons (by rw [hk]; decide) (by simp [hk])
  · exact if_pos hk

theorem restores_unterminated {s : Node} {ss : List Node}
    (hspells : Spells (.statement s) ts) (hs : Restores σ (.statement s) ts)
    (hnext : ∀ t ∈ us.head?, t.kind.level = .lowest) (hspells' : Spells (.statements ss) us)
    (hss : Restores σ (.statements ss) us) : Restores σ (.statements (s :: ss)) (ts ++ us) := by
  refine restores_statements_cons [] hspells hs hss fun post hpost => ?_
  -- What follows the statement is another statement, or a brace, or nothing.
  have hhead (t : Token) (ht : t ∈ (us ++ post).head?) :
      t.kind.level = .lowest ∧ t.kind ≠ .semicolon ∧ t.kind ≠ .elseKeyword := by
    cases us with
    | nil => simp [hpost t ht, TokenKind.level]
    | cons u us =>
      have hbegins := hspells'.beginsStatement_of_mem_head? ht
      exact ⟨hnext t ht, (beginsStatement_ne hbegins).2.2⟩
  rw [List.nil_append]
  refine ⟨fun t ht => ⟨Nat.le_of_eq (by rw [(hhead t ht).1]), (hhead t ht).2.2⟩, ?_⟩
  generalize us ++ post = vs at hhead
  cases vs with
  | nil => rfl
  | cons v vs => exact if_neg (hhead v rfl).2.1

/-- **Every spelling is restored.** -/
theorem restores_of_spells {phrase : Phrase} (h : Spells phrase ts) : Restores σ phrase ts := by
  induction h with
  | identifier ht => exact restores_identifier ht
  | integer ht hn => exact restores_integer ht hn
  | trueLiteral ht => exact restores_boolean ht
  | falseLiteral ht => exact restores_boolean ht
  | string ht => exact restores_string ht
  | unary hf ht _ ih => exact restores_unary hf ht ih
  | binary hf ht _ _ ihl ihr => exact restores_binary hf ht ihl ihr
  | call _ ht _ _ hc ihf ihargs => exact restores_call ht ihf ihargs hc
  | grouped ho _ hc ih => exact restores_grouped ho ih hc
  | array ht _ hc ih => exact restores_array ht ih hc
  | conditional ht ho _ hc hb ihc ihb => exact restores_conditional ht ho ihc hc hb ihb
  | conditionalElse ht ho _ hc hb he ha ihc ihb iha =>
    exact restores_conditionalElse ht ho ihc hc hb ihb he ha iha
  | function ht ho _ hc hb ihns ihb => exact restores_function ht ho ihns hc hb ihb
  | noItems => exact restores_noItems
  | items he hes ihe ihes => exact restores_items he ihe hes ihes
  | noMoreItems => exact restores_noMoreItems
  | moreItems hk _ hes ihe ihes => exact restores_moreItems hk ihe hes ihes
  | noNames => exact restores_noNames
  | names ht _ ih => exact restores_names ht ih
  | noMoreNames => exact restores_noMoreNames
  | moreNames hk ht _ ih => exact restores_moreNames hk ht ih
  | block _ _ hc ih => exact restores_block ih hc
  | letStatement ht hn ha _ ih => exact restores_letStatement ht hn ha ih
  | returnStatement ht _ ih => exact restores_returnStatement ht ih
  | expressionStatement he ih => exact restores_expressionStatement he ih
  | noStatements => exact restores_noStatements
  | terminated hs hk _ ihs ihss => exact restores_terminated hs ihs hk ihss
  | unterminated hs hnext hss ihs ihss => exact restores_unterminated hs ihs hnext hss ihss

end Parse

/-! ### Programs -/

open Parse

/-- A stream whose tokens look like those of a spelling is read as the program they spell. -/
theorem Reading.same_of_spelled {σ : Type} [TokenStream σ] [LawfulTokenStream σ] (s : σ)
    {program : Program} {ts closers : List Token} (h : program.Spelled (ts ++ closers))
    (hclosers : ∀ t ∈ closers, t.kind = .rightBrace)
    (hts : List.Forall₂ Token.LooksLike (TokenStream.toList s).dropLast ts) :
    (Reading.ofStream s).diagnostics = [] ∧
      ((Reading.ofStream s).program == program) = true := by
  obtain ⟨body, q, hrun, -, heq⟩ :=
    Reading.exists_run (Parser.genuine_ofStream s) (Parser.behind_ofStream s)
  have hawaits : (Parser.ofStream s).Awaits (ts ++ closers ++ []) := by
    refine ⟨Parser.genuine_ofStream s, ts, closers, List.append_nil _, hclosers, ?_⟩
    rw [Parser.ahead, Parser.upcoming_ofStream]
    exact hts
  have hbegins (k : TokenKind) (hk : k.BeginsStatement) : endsProgram k = false := by
    simp [endsProgram, (beginsStatement_ne hk).2.1]
  have hends (q : Parser σ) (hq : q.Awaits []) : endsProgram q.current.kind = true := by
    simp [endsProgram, hq.kind_of_nil]
  have hmeets := restores_of_spells (σ := σ) h (Parser.ofStream s).fuel (Parser.ofStream s).fuel
    (Parser.ofStream s).fuel endsProgram [] (Parser.ofStream s) [] hbegins hends
    (by simp) hawaits
  rw [statements] at hrun
  rw [hrun] at hmeets
  obtain ⟨⟨behind, rfl, hsame⟩, -, hdiagnostics⟩ := hmeets
  rw [Reading.ofStream, heq]
  exact ⟨hdiagnostics, hsame⟩

/-- **Whatever spells a program is read as that program.** The tokens of the text may stand
anywhere, and closing braces may be missing at the end. -/
theorem parse_same_of_spelled (source : String) (program : Program) (ts closers : List Token)
    (h : program.Spelled (ts ++ closers)) (hclosers : ∀ t ∈ closers, t.kind = .rightBrace)
    (hts : List.Forall₂ Token.LooksLike (tokenize source).dropLast ts) :
    (parse source).diagnostics = [] ∧ ((parse source).program == program) = true :=
  Reading.same_of_spelled _ h hclosers hts

/-- A conditional, with redundant parentheses around its condition. -/
def conditionalSpelling : List Token :=
  [⟨.ifKeyword, "if", 0, 0⟩, ⟨.leftParen, "(", 0, 0⟩, ⟨.leftParen, "(", 0, 0⟩,
    ⟨.identifier, "x", 0, 0⟩, ⟨.rightParen, ")", 0, 0⟩, ⟨.rightParen, ")", 0, 0⟩,
    ⟨.leftBrace, "\x7b", 0, 0⟩, closingBrace]

/-- The program that these tokens spell. -/
def conditionalProgram : Program :=
  ⟨[.expressionStatement ⟨.ifKeyword, "if", 0, 0⟩ (.conditional ⟨.ifKeyword, "if", 0, 0⟩
    (.identifier ⟨.identifier, "x", 0, 0⟩ "x") (.block ⟨.leftBrace, "\x7b", 0, 0⟩ []) none)]⟩

theorem conditionalProgram_spelled : conditionalProgram.Spelled conditionalSpelling := by
  have hx : Spells (.expression 0 (.identifier ⟨.identifier, "x", 0, 0⟩ "x"))
      [⟨.leftParen, "(", 0, 0⟩, ⟨.identifier, "x", 0, 0⟩, ⟨.rightParen, ")", 0, 0⟩] :=
    .grouped rfl (.identifier rfl) rfl
  have hblock : Spells (.block (.block ⟨.leftBrace, "\x7b", 0, 0⟩ []))
      [⟨.leftBrace, "\x7b", 0, 0⟩, closingBrace] :=
    .block rfl .noStatements rfl
  have hstatements : Spells (.statements conditionalProgram.statements)
      (conditionalSpelling ++ []) :=
    .unterminated (.expressionStatement (.conditional rfl rfl hx rfl hblock)) (by simp)
      .noStatements
  rwa [List.append_nil] at hstatements

/-- The same text without its closing brace. -/
theorem parse_same_of_spelled_open_block :
    conditionalProgram.Spelled (conditionalSpelling.dropLast ++ [closingBrace]) ∧
    List.Forall₂ Token.LooksLike (tokenize "if ((x)) \x7b").dropLast
      conditionalSpelling.dropLast ∧
    (parse "if ((x)) \x7b").diagnostics = [] ∧
    ((parse "if ((x)) \x7b").program == conditionalProgram) = true := by
  have htokens : (tokenize "if ((x)) \x7b").dropLast = [⟨.ifKeyword, "if", 1, 1⟩,
      ⟨.leftParen, "(", 1, 4⟩, ⟨.leftParen, "(", 1, 5⟩, ⟨.identifier, "x", 1, 6⟩,
      ⟨.rightParen, ")", 1, 7⟩, ⟨.rightParen, ")", 1, 8⟩, ⟨.leftBrace, "\x7b", 1, 10⟩] := by
    decide +kernel
  have hlooks : List.Forall₂ Token.LooksLike (tokenize "if ((x)) \x7b").dropLast
      conditionalSpelling.dropLast := by
    rw [htokens]
    simp [conditionalSpelling, Token.LooksLike]
  exact ⟨conditionalProgram_spelled, hlooks,
    parse_same_of_spelled _ _ conditionalSpelling.dropLast [closingBrace]
      conditionalProgram_spelled (by simp [closingBrace]) hlooks⟩

end MonkeySyntax
