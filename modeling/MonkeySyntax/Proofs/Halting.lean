import MonkeySyntax.Proofs.Advance
import MonkeySyntax.Proofs.Built

/-!
# Every rule comes to an end

A rule may be called anywhere, also where no run on a program would call it: on a token that begins
nothing of its kind, at the end of the input, or on a brace that has just ended a block. It comes to
an end all the same, within the fuel that the parser asks for at that place. Nothing but the tokens
ahead decides this. An action never brings one of them back (`Parser.Onward`), the reader of
expressions is entered again only behind a token, and each round of a loop but the last one leaves a
token behind.

There are two measures of room. A rule needs room for the tokens behind the current one
(`Parse.HaltsNext`), as it begins by reading that; and what comes first in a rule, be it an
expression or a statement, needs room for the current token as well (`Parse.Halts`).
-/

namespace MonkeySyntax

namespace Parser

variable {σ : Type} [TokenStream σ] {p q r : Parser σ}

/-- The parser `q` stands where `p` does, or further on in the same tokens. -/
structure Onward (p q : Parser σ) : Prop where
  genuine : q.Genuine
  suffix : q.upcoming <:+ p.upcoming

theorem Onward.refl (hp : p.Genuine) : Onward p p :=
  ⟨hp, List.suffix_rfl⟩

theorem Onward.trans (h : Onward p q) (h' : Onward q r) : Onward p r :=
  ⟨h'.genuine, h'.suffix.trans h.suffix⟩

theorem Onward.length_ahead_le (h : Onward p q) : q.ahead.length ≤ p.ahead.length := by
  have hle := h.suffix.length_le
  rw [length_upcoming, length_upcoming] at hle
  omega

variable [LawfulTokenStream σ]

theorem Onward.advance (hp : p.Genuine) : Onward p p.advance :=
  ⟨hp.advance, hp.upcoming_advance_suffix⟩

theorem Onward.length_ahead_advance_le (hp : p.Genuine) (h : Onward p q) :
    q.advance.ahead.length ≤ p.advance.ahead.length := by
  have hle := h.length_ahead_le
  rw [h.genuine.ahead_advance, hp.ahead_advance, List.length_tail, List.length_tail]
  omega

theorem kept_onward (p : Parser σ) : Kept (Onward p) where
  advance _ h := h.trans (.advance h.genuine)
  report _ _ h := ⟨h.genuine, h.suffix⟩
  drop _ h := ⟨h.genuine, h.suffix⟩
  closeBlock q h := ⟨(genuine_closeBlock q).2 h.genuine, q.upcoming_closeBlock ▸ h.suffix⟩

/-- The fuel that a parser asks for is room enough for the tokens ahead. -/
theorem length_ahead_lt_fuel (p : Parser σ) : p.ahead.length < p.fuel := by
  have hle := p.length_upcoming_le_fuel
  rwa [length_upcoming, Nat.succ_le_iff] at hle

end Parser

namespace Parse

open MonkeySyntax.Parser

variable {σ α β : Type} [TokenStream σ] {N : Nat}

/-- The action ends and never goes back, where there is room for all tokens ahead. -/
def Halts (N : Nat) (m : Parse σ α) : Prop :=
  ∀ p, p.Genuine → p.ahead.length < N → (m.run p).Meets False (fun _ q => Onward p q) (Onward p)

/-- The action ends and never goes back, where there is room for the tokens behind the current
one. -/
def HaltsNext (N : Nat) (m : Parse σ α) : Prop :=
  ∀ p, p.Genuine → p.advance.ahead.length < N →
    (m.run p).Meets False (fun _ q => Onward p q) (Onward p)

/-! ### Sequences -/

theorem meets_bind_onward {m : Parse σ α} {f : α → Parse σ β} {p : Parser σ}
    (hm : (m.run p).Meets False (fun _ q => Onward p q) (Onward p))
    (hf : ∀ a q, Onward p q →
      ((f a).run q).Meets False (fun _ r => Onward q r) (Onward q)) :
    ((m >>= f).run p).Meets False (fun _ r => Onward p r) (Onward p) := by
  rw [meets_bind]
  refine hm.mono (fun a q hq => ?_) fun _ hq => hq
  exact (hf a q hq).mono (fun _ _ hr => hq.trans hr) fun _ hr => hq.trans hr

theorem Halts.bind {m : Parse σ α} {f : α → Parse σ β} (hm : Halts N m) (hf : ∀ a, Halts N (f a)) :
    Halts N (m >>= f) := by
  intro p hp hN
  refine meets_bind_onward (hm p hp hN) fun a q hq => hf a q hq.genuine ?_
  exact Nat.lt_of_le_of_lt hq.length_ahead_le hN

theorem halts_pure (a : α) : Halts N (pure a : Parse σ α) := fun _ hp _ => .refl hp

variable [LawfulTokenStream σ]

theorem HaltsNext.halts {m : Parse σ α} (h : HaltsNext N m) : Halts N m := by
  intro p hp hN
  refine h p hp (Nat.lt_of_le_of_lt ?_ hN)
  exact (Onward.advance hp).length_ahead_le

theorem HaltsNext.bind {m : Parse σ α} {f : α → Parse σ β} (hm : HaltsNext N m)
    (hf : ∀ a, HaltsNext N (f a)) : HaltsNext N (m >>= f) := by
  intro p hp hN
  refine meets_bind_onward (hm p hp hN) fun a q hq => hf a q hq.genuine ?_
  exact Nat.lt_of_le_of_lt (hq.length_ahead_advance_le hp) hN

/-- Behind a move there is room for all tokens ahead. -/
theorem HaltsNext.advance {f : Unit → Parse σ β} (hf : Halts N (f ())) :
    HaltsNext N (advance >>= f) := by
  intro p hp hN
  rw [meets_bind, meets_advance]
  have hmove := Onward.advance hp
  exact (hf p.advance hp.advance hN).mono (fun _ _ hr => hmove.trans hr) fun _ hr => hmove.trans hr

theorem HaltsNext.expect {kind : TokenKind} {f : Unit → Parse σ β} (hf : Halts N (f ())) :
    HaltsNext N (expect kind >>= f) := by
  intro p hp hN
  rw [meets_bind]
  refine meets_expect (fun _ => ?_) fun _ => ⟨hp, List.suffix_rfl⟩
  have hmove := Onward.advance hp
  exact (hf p.advance hp.advance hN).mono (fun _ _ hr => hmove.trans hr) fun _ hr => hmove.trans hr

section Primitive

omit [LawfulTokenStream σ]

theorem haltsNext_pure (a : α) : HaltsNext N (pure a : Parse σ α) := fun _ hp _ => .refl hp

theorem haltsNext_current : HaltsNext N (current : Parse σ Token) := fun _ hp _ => .refl hp

theorem haltsNext_peek : HaltsNext N (peek : Parse σ Token) := fun _ hp _ => .refl hp

theorem haltsNext_closeBlock : HaltsNext N (closeBlock : Parse σ Unit) := fun _ hp _ =>
  ⟨(genuine_closeBlock _).2 hp, by simp⟩

theorem haltsNext_reject (d : Diagnostic) : HaltsNext N (reject d : Parse σ α) := fun _ hp _ =>
  ⟨hp, List.suffix_rfl⟩

end Primitive

theorem haltsNext_advance : HaltsNext N (advance : Parse σ Unit) := fun _ hp _ => .advance hp

theorem haltsNext_expect (kind : TokenKind) : HaltsNext N (expect kind : Parse σ Unit) :=
  fun _ hp _ => meets_expect (fun _ => .advance hp) fun _ => ⟨hp, List.suffix_rfl⟩

/-! ### Loops -/

/-- One round of a loop, behind a token that has been read. If another round is to come, the tokens
behind have become fewer. -/
def RoundHaltsNext (N : Nat) (round : Parse σ (Round α β)) : Prop :=
  ∀ q, q.Genuine → q.advance.ahead.length < N → (round.run q).Meets False
    (fun
      | .next _, r => Onward q r ∧ r.advance.ahead.length < q.advance.ahead.length
      | .stop _, r => Onward q r) (Onward q)

theorem HaltsNext.rounds {round : α → Parse σ (Round α β)} {bound : Nat} (hN : N ≤ bound)
    (h : ∀ a, RoundHaltsNext N (round a)) (a : α) : HaltsNext N (rounds round bound a) := by
  intro p hp hlt
  refine meets_rounds (fun _ q => Onward p q) (fun q => q.advance.ahead.length)
    (fun a q hq => ?_) (.refl hp) (.inr (Nat.lt_of_lt_of_le hlt hN))
  -- The bound counts rounds, and each of them leaves a token behind that there was room for.
  have hroom : q.advance.ahead.length < N :=
    Nat.lt_of_le_of_lt (hq.length_ahead_advance_le hp) hlt
  refine (h a q hq.genuine hroom).mono (fun o r hr => ?_) fun _ hr => hq.trans hr
  cases o with
  | next a => exact ⟨hq.trans hr.1, .inr hr.2⟩
  | stop b => exact hq.trans hr

/-- Such a round looks at the next token. Either it stops there, or the token is not the end and is
passed. -/
theorem RoundHaltsNext.of_peek {f : Token → Parse σ (Round α β)}
    (h : ∀ t, (∃ b, f t = pure (.stop b)) ∨
      t.kind ≠ .eof ∧ ∃ g, f t = (Parse.advance >>= g) ∧ Halts N (g ())) :
    RoundHaltsNext N (peek >>= f) := by
  intro q hq hN
  rw [meets_bind, meets_peek]
  rcases h q.peek with ⟨b, hb⟩ | ⟨hk, g, hg, hhalts⟩
  · rw [hb, meets_pure]
    exact .refl hq
  · have hmove := Onward.advance hq
    rw [hg, meets_bind, meets_advance]
    refine (hhalts q.advance hq.advance hN).mono (fun o r hr => ?_) fun _ hr => hmove.trans hr
    cases o with
    | next a =>
      exact ⟨hmove.trans hr,
        length_ahead_advance_lt_of_suffix (p := q.advance) hk hr.genuine hr.suffix⟩
    | stop b => exact hmove.trans hr

/-! ### Skipping -/

/-- **Skipping ends** wherever it begins. If it says that it stands on a brace, it does. -/
theorem synchronize_halts {bound : Nat} {p : Parser σ} (hp : p.Genuine)
    (hN : p.ahead.length < bound) {R : Parser σ → Prop} :
    ((synchronize bound).run p).Meets False
      (fun b q => Onward p q ∧ (b = true → q.current.kind = .rightBrace)) R := by
  refine meets_rounds (fun _ q => Onward p q) (fun q => q.ahead.length)
    (fun depth q hq => ?_) (.refl hp) (.inr hN)
  have hmove (hk : q.current.kind ≠ .eof) :
      Onward p q.advance ∧ (False ∨ q.advance.ahead.length < q.ahead.length) :=
    ⟨hq.trans (.advance hq.genuine), .inr (length_ahead_advance_lt hk)⟩
  -- A round stops where it stands, or moves by one token; only on a brace does it answer `true`.
  simp only [skipRound, meets_bind, meets_current, meets_peek, meets_onClosed]
  split
  · exact ⟨hq, fun h => absurd h Bool.false_ne_true⟩
  next hk =>
  split
  · exact hmove hk
  split
  · next hr =>
    split
    · exact ⟨hq, fun _ => hr.1⟩
    · exact ⟨hq, fun h => absurd h Bool.false_ne_true⟩
    · exact hmove hk
  split
  · exact ⟨hq, fun h => absurd h Bool.false_ne_true⟩
  · exact hmove hk

omit [LawfulTokenStream σ] in
/-- If skipping says that it stands on a brace, it does. -/
theorem synchronize_onBrace (bound : Nat) (p : Parser σ) :
    ((synchronize bound).run p).Meets True (fun b q => b = true → q.current.kind = .rightBrace)
      fun _ => True := by
  refine meets_rounds (fun _ _ => True) (fun _ => 0) (fun depth q _ => ?_) trivial (.inl trivial)
  simp only [skipRound, meets_bind, meets_current, meets_peek, meets_onClosed]
  split
  · exact fun h => absurd h Bool.false_ne_true
  split
  · exact ⟨trivial, .inl trivial⟩
  split
  · next hbrace =>
    split
    · exact fun _ => hbrace.1
    · exact fun h => absurd h Bool.false_ne_true
    · exact ⟨trivial, .inl trivial⟩
  split
  · exact fun h => absurd h Bool.false_ne_true
  · exact ⟨trivial, .inl trivial⟩

/-! ### The rules of the grammar -/

theorem identifier_haltsNext : HaltsNext N (identifier : Parse σ Node) :=
  haltsNext_current.bind fun _ => haltsNext_pure _

theorem boolean_haltsNext : HaltsNext N (boolean : Parse σ Node) :=
  haltsNext_current.bind fun _ => haltsNext_pure _

theorem string_haltsNext : HaltsNext N (string : Parse σ Node) :=
  haltsNext_current.bind fun _ => haltsNext_pure _

theorem integer_haltsNext : HaltsNext N (integer : Parse σ Node) := by
  refine haltsNext_current.bind fun t => ?_
  split
  · exact haltsNext_pure _
  · exact haltsNext_reject _

theorem optionalSemicolon_halts : Halts N (optionalSemicolon : Parse σ Unit) := by
  refine (haltsNext_peek.bind fun t => ?_).halts
  split
  · exact haltsNext_advance
  · exact haltsNext_pure _

section Rules

variable {expr : Nat → Parse σ Node} (he : ∀ floor, Halts N (expr floor)) {fuel : Nat}
  (hN : N ≤ fuel)

include he

theorem unary_haltsNext : HaltsNext N (unary expr) :=
  haltsNext_current.bind fun _ => .advance ((he _).bind fun _ => halts_pure _)

theorem binary_haltsNext (left : Node) : HaltsNext N (binary expr left) :=
  haltsNext_current.bind fun _ => .advance ((he _).bind fun _ => halts_pure _)

theorem grouped_haltsNext : HaltsNext N (grouped expr) :=
  .advance ((he _).bind fun _ => (haltsNext_expect _).halts.bind fun _ => halts_pure _)

theorem letStatement_haltsNext : HaltsNext N (letStatement expr) := by
  refine haltsNext_current.bind fun t => .expect ?_
  refine identifier_haltsNext.halts.bind fun name => (haltsNext_expect _).halts.bind fun _ => ?_
  refine haltsNext_advance.halts.bind fun _ => (he _).bind fun value => ?_
  exact optionalSemicolon_halts.bind fun _ => halts_pure _

theorem returnStatement_haltsNext : HaltsNext N (returnStatement expr) := by
  refine haltsNext_current.bind fun t => .advance ((he _).bind fun value => ?_)
  exact optionalSemicolon_halts.bind fun _ => halts_pure _

theorem expressionStatement_halts : Halts N (expressionStatement expr) := by
  refine haltsNext_current.halts.bind fun t => (he _).bind fun value => ?_
  exact optionalSemicolon_halts.bind fun _ => halts_pure _

theorem statement_halts : Halts N (statement expr) := by
  refine haltsNext_current.halts.bind fun t => ?_
  split
  · exact (letStatement_haltsNext he).halts
  · exact (returnStatement_haltsNext he).halts
  · exact expressionStatement_halts he

include hN

theorem expressionList_haltsNext (closing : TokenKind) :
    HaltsNext N (expressionList expr fuel closing) := by
  have hround (items : List Node) : RoundHaltsNext N (expressionsRound expr items) := by
    refine .of_peek fun t => ?_
    by_cases hk : t.kind = .comma
    · rw [if_pos hk]
      refine .inr ⟨by simp [hk], _, rfl, ?_⟩
      exact haltsNext_advance.halts.bind fun _ => (he _).bind fun _ => halts_pure _
    · rw [if_neg hk]
      exact .inl ⟨_, rfl⟩
  refine haltsNext_peek.bind fun t => ?_
  split
  · exact haltsNext_advance.bind fun _ => haltsNext_pure _
  · refine .advance ((he _).bind fun item => ?_)
    refine (HaltsNext.rounds hN hround [item]).halts.bind fun items => ?_
    exact (haltsNext_expect _).halts.bind fun _ => halts_pure _

theorem array_haltsNext : HaltsNext N (array expr fuel) :=
  haltsNext_current.bind fun _ => (expressionList_haltsNext he hN _).bind fun _ => haltsNext_pure _

theorem call_haltsNext (callee : Node) : HaltsNext N (call expr fuel callee) :=
  haltsNext_current.bind fun _ => (expressionList_haltsNext he hN _).bind fun _ => haltsNext_pure _

omit he in
theorem parameters_haltsNext : HaltsNext N (parameters fuel : Parse σ (List Node)) := by
  have hround (names : List Node) : RoundHaltsNext N (parametersRound (σ := σ) names) := by
    refine .of_peek fun t => ?_
    by_cases hk : t.kind = .comma
    · rw [if_pos hk]
      refine .inr ⟨by simp [hk], _, rfl, ?_⟩
      exact (haltsNext_expect _).halts.bind fun _ =>
        identifier_haltsNext.halts.bind fun _ => halts_pure _
    · rw [if_neg hk]
      exact .inl ⟨_, rfl⟩
  refine haltsNext_peek.bind fun t => ?_
  split
  · exact haltsNext_advance.bind fun _ => haltsNext_pure _
  · refine (haltsNext_expect _).bind fun _ => identifier_haltsNext.bind fun name => ?_
    refine (HaltsNext.rounds hN hround [name]).bind fun names => ?_
    exact (haltsNext_expect _).bind fun _ => haltsNext_pure _

/-- **A sequence of statements ends**, and is never rejected. -/
theorem statements_halts {ends : TokenKind → Bool} (heof : ends .eof = true) {p : Parser σ}
    (hp : p.Genuine) (hlt : p.ahead.length < N) {R : Parser σ → Prop} :
    ((statements expr fuel ends).run p).Meets False (fun _ q => Onward p q) R := by
  refine meets_rounds (fun _ q => Onward p q) (fun q => q.ahead.length)
    (fun before q hq => ?_) (.refl hp) (.inr (Nat.lt_of_lt_of_le hlt hN))
  have hroom : q.ahead.length < N := Nat.lt_of_le_of_lt hq.length_ahead_le hlt
  rw [statementsRound, meets_bind, meets_current]
  split
  · exact hq
  next hends =>
  have hne : q.current.kind ≠ .eof := fun h => hends (h ▸ heof)
  -- Behind the statement, wherever it has ended, a move leaves a token behind.
  have hmove {r : Parser σ} (hr : Onward q r) :
      Onward p r.advance ∧ (False ∨ r.advance.ahead.length < q.ahead.length) :=
    ⟨hq.trans (hr.trans (.advance hr.genuine)),
      .inr (length_ahead_advance_lt_of_suffix hne hr.genuine hr.suffix)⟩
  rw [meets_bind, meets_attempt]
  refine (statement_halts he q hq.genuine hroom).mono (fun this r hr => hmove hr) fun r hr => ?_
  -- The statement is dropped and the rest of it skipped.
  have hdrop : Onward q r.drop := ⟨hr.genuine, hr.suffix⟩
  have hbound : r.drop.ahead.length < fuel :=
    Nat.lt_of_le_of_lt hdrop.length_ahead_le (Nat.lt_of_lt_of_le hroom hN)
  rw [meets_bind]
  refine (synchronize_halts hdrop.genuine hbound).mono (fun b r' hr' => ?_) fun _ h => h
  have hskip := hdrop.trans hr'.1
  split
  · next houter =>
    -- The round did not begin on this brace, or it would have stopped there.
    refine ⟨hq.trans hskip, .inr (length_ahead_lt_of_suffix hskip.suffix fun hk => hends ?_)⟩
    rw [← hk, hr'.2 houter.1, houter.2]
  · exact hmove hskip

theorem block_haltsNext : HaltsNext N (block expr fuel) := by
  refine haltsNext_current.bind fun t => .advance ?_
  refine Halts.bind (fun p hp hlt => statements_halts he hN rfl hp hlt) fun body => ?_
  exact haltsNext_closeBlock.halts.bind fun _ => halts_pure _

theorem conditional_haltsNext : HaltsNext N (conditional expr fuel) := by
  have hblock := (block_haltsNext he hN).halts
  have halternative : Halts N (alternative expr fuel) := by
    refine haltsNext_peek.halts.bind fun t => ?_
    split
    · exact haltsNext_advance.halts.bind fun _ => (haltsNext_expect _).halts.bind fun _ =>
        hblock.bind fun _ => halts_pure _
    · exact halts_pure _
  refine haltsNext_current.bind fun t => .expect (haltsNext_advance.halts.bind fun _ => ?_)
  refine (he _).bind fun condition => (haltsNext_expect _).halts.bind fun _ => ?_
  refine (haltsNext_expect _).halts.bind fun _ => hblock.bind fun consequence => ?_
  exact halternative.bind fun _ => halts_pure _

theorem function_haltsNext : HaltsNext N (function expr fuel) := by
  refine haltsNext_current.bind fun t => (haltsNext_expect _).bind fun _ => ?_
  refine (parameters_haltsNext hN).bind fun names => (haltsNext_expect _).bind fun _ => ?_
  exact (block_haltsNext he hN).bind fun _ => haltsNext_pure _

theorem prefixRule_haltsNext {kind : TokenKind} {rule : Parse σ Node}
    (h : prefixRule expr fuel kind = some rule) : HaltsNext N rule := by
  cases kind <;> cases h
  case identifier => exact identifier_haltsNext
  case int => exact integer_haltsNext
  case trueKeyword => exact boolean_haltsNext
  case falseKeyword => exact boolean_haltsNext
  case string => exact string_haltsNext
  case bang => exact unary_haltsNext he
  case minus => exact unary_haltsNext he
  case leftParen => exact grouped_haltsNext he
  case leftBracket => exact array_haltsNext he hN
  case ifKeyword => exact conditional_haltsNext he hN
  case functionKeyword => exact function_haltsNext he hN

theorem infixRule_haltsNext {kind : TokenKind} {rule : Node → Parse σ Node}
    (h : infixRule expr fuel kind = some rule) (left : Node) : HaltsNext N (rule left) := by
  cases kind <;> cases h
  case leftParen => exact call_haltsNext he hN left
  all_goals exact binary_haltsNext he left

theorem operatorsRound_haltsNext (floor : Nat) (left : Node) :
    RoundHaltsNext N (operatorsRound expr fuel floor left) := by
  refine .of_peek fun t => ?_
  by_cases hk : t.kind ≠ .semicolon ∧ floor < t.kind.level.power
  · rw [if_pos hk]
    cases hrule : infixRule expr fuel t.kind with
    | none => exact .inl ⟨_, rfl⟩
    | some rule =>
      refine .inr ⟨(plain_of_infixRule hrule).1, _, rfl, ?_⟩
      exact (infixRule_haltsNext he hN hrule left).halts.bind fun _ => halts_pure _
  · rw [if_neg hk]
    exact .inl ⟨_, rfl⟩

end Rules

/-! ### Nesting -/

/-- One level of nesting: an expression, where the expressions inside it are read by `expr`. -/
def expressionBody (expr : Nat → Parse σ Node) (fuel floor : Nat) : Parse σ Node := do
  let token ← current
  match prefixRule expr fuel token.kind with
  | none => reject (.noExpression token)
  | some rule => do
    let left ← rule
    rounds (operatorsRound expr fuel floor) fuel left

omit [LawfulTokenStream σ] in
theorem expression_succ (fuel floor : Nat) :
    expression (σ := σ) (fuel + 1) floor = expressionBody (expression fuel) (fuel + 1) floor := rfl

/-- An expression needs room for one token more than those inside it, which is the token that it
begins with. -/
theorem expressionBody_halts {expr : Nat → Parse σ Node} (he : ∀ floor, Halts N (expr floor))
    {fuel : Nat} (hN : N ≤ fuel) (floor : Nat) :
    Halts (N + 1) (expressionBody expr fuel floor) := by
  intro p hp hlt
  rw [expressionBody, meets_bind, meets_current]
  split
  · exact ⟨hp, List.suffix_rfl⟩
  · next rule hrule =>
    -- The token that the rule begins with leaves room for the expressions inside it.
    have hroom : p.advance.ahead.length < N := by
      have hless := length_ahead_advance_lt (plain_of_prefixRule hrule).1
      omega
    have hrounds (left : Node) := HaltsNext.rounds hN (operatorsRound_haltsNext he hN floor) left
    exact ((prefixRule_haltsNext he hN hrule).bind hrounds) p hp hroom

/-- **Expressions end.** With fuel for the tokens ahead, reading an expression comes to an end,
wherever the parser stands. -/
theorem expression_halts (N floor : Nat) : Halts (σ := σ) N (expression N floor) := by
  induction N generalizing floor with
  | zero => exact fun p _ hlt => absurd hlt (Nat.not_lt_zero _)
  | succ N ih => exact expressionBody_halts ih (Nat.le_succ N) floor

end Parse

end MonkeySyntax
