import MonkeySyntax.Proofs.Requests

/-!
# Every call ends, and gets ahead

A parser can be asked anything anywhere, and every request ends. What makes it end is that the
current token becomes a later one, but it is not plain to see that it does. A statement that is
rejected may not have consumed anything; skipping may stop where it begins; behind it, the loop over
the statements of a block may go on without a move; and a move at the end of the input leads
nowhere. None of these can happen where the others do.

Where a parser stands is said by `Parser.place`, the index of its current token among the tokens of
the stream. There are three things to show:

* each round of a loop but the last one makes the place a later one (`Parse.RoundAdvances`);
* an expression asks for the expressions inside it only from later places. The reader that it is
  given for them may be locked at all others, and this makes no difference
  (`Parse.run_expressionBody_onlyWhere`);
* so no request runs out of fuel, if it is given as much as there are tokens left, and more fuel
  does not change the answer (`Parser.perform_eq_answered`).
-/

namespace MonkeySyntax

open MonkeySyntax.Scanner (Cursor)

open TokenStream (toList)

/-! ### Places -/

namespace Parser

variable {σ : Type} [TokenStream σ] {s : σ} {p q : Parser σ}

/-- The index of the current token among the tokens of the stream, of which the end token is the
last one. -/
def place (s : σ) (p : Parser σ) : Nat :=
  min p.index ((toList s).length - 1)

/-- No move leads back. -/
theorem kept_le_place (k : Nat) : Kept fun q : Parser σ => k ≤ place s q where
  advance q h := by
    unfold place at h ⊢
    rw [index_advance]
    omega
  report _ _ h := h
  drop _ h := h
  closeBlock q h := by rwa [place, index_closeBlock]

variable [LawfulTokenStream σ]

theorem Reachable.getElem?_place (h : p.Reachable s) : (toList s)[place s p]? = some p.current :=
  h.getElem?_min

/-- Behind a token that is not the end, a move leads to a later place. -/
theorem Reachable.place_lt_advance (h : p.Reachable s) (hk : p.current.kind ≠ .eof)
    (hle : place s p ≤ place s q) : place s p < place s q.advance := by
  have hlt := (TokenStream.kind_ne_eof_iff h.getElem?_place).1 hk
  unfold place at *
  rw [index_advance]
  omega

/-- Behind the current token are all tokens with a higher index. -/
theorem Reachable.length_ahead (h : p.Reachable s) :
    p.ahead.length + place s p + 1 = (toList s).length := by
  have hlt := (List.getElem?_eq_some_iff.1 h.getElem?_place).1
  by_cases hk : p.current.kind = .eof
  · have hle := h.length_le_of_eof hk
    rw [ahead_of_eof hk, List.length_nil, place]
    omega
  · have hplace := (TokenStream.kind_ne_eof_iff h.getElem?_place).1 hk
    have hlength := congrArg List.length (h.upcoming_eq hk)
    rw [length_upcoming, List.length_drop] at hlength
    unfold place at hplace ⊢
    omega

theorem Reachable.length_ahead_lt_iff (hp : p.Reachable s) (hq : q.Reachable s) :
    q.ahead.length < p.ahead.length ↔ place s p < place s q := by
  have hlength := hp.length_ahead
  have hlength' := hq.length_ahead
  omega

end Parser

namespace Parse

open MonkeySyntax.Parser

variable {σ α β : Type} [TokenStream σ] {s : σ} {p q : Parser σ}

/-! ### Loops -/

/-- The round is not the last one of its loop. -/
def Round.goesOn : Round α β → Bool
  | next _ => true
  | stop _ => false

/-- If the round is begun at `p` and another one is to follow, the current token is a later one by
then. -/
def RoundAdvances (s : σ) (p : Parser σ) (round : Parse σ (Round α β)) : Prop :=
  ∀ a q, round.run p = .done (.next a) q → place s p < place s q

theorem roundAdvances_of_meets {round : Parse σ (Round α β)}
    (h : (round.run p).Meets True (fun o q => o.goesOn = true → place s p < place s q)
      fun _ => True) : RoundAdvances s p round := by
  intro a q hrun
  rw [hrun] at h
  exact h rfl

/-- A sequence of statements goes on until it is at its end. -/
theorem statements_end (expr : Nat → Parse σ Node) (fuel : Nat) (ends : TokenKind → Bool)
    (p : Parser σ) : ((statements expr fuel ends).run p).Meets True
      (fun _ q => ends q.current.kind = true) fun _ => True := by
  refine meets_rounds (fun _ _ => True) (fun _ => 0) (fun before q _ => ?_) trivial (.inl trivial)
  rw [statementsRound, meets_bind, meets_current]
  split
  · next hends => exact hends
  rw [meets_bind, meets_attempt]
  -- The loop has one way out, so nothing needs to be known of what a round does.
  cases (statement expr).run q with
  | done this r => exact ⟨trivial, .inl trivial⟩
  | rejected r =>
    change (Parse.run _ r.drop).Meets True _ _
    rw [meets_bind]
    cases (synchronize fuel).run r.drop with
    | done onOuterBrace r' =>
      change (Parse.run (if onOuterBrace = true ∧ ends .rightBrace = true then _ else _) r').Meets
        True _ _
      split
      · exact ⟨trivial, .inl trivial⟩
      · exact ⟨trivial, .inl trivial⟩
    | rejected r' => trivial
    | outOfFuel => trivial
  | outOfFuel => trivial

variable [LawfulTokenStream σ]

/-- Such a round looks at the next token. Either it stops there, or the token is not the end and is
passed. -/
theorem roundAdvances_peek {f : Token → Parse σ (Round α β)} (hp : p.Reachable s)
    (h : ∀ t, (∃ b, f t = pure (.stop b)) ∨
      t.kind ≠ .eof ∧ ∃ g, f t = (Parse.advance >>= g) ∧ ∃ c, Built true .fresh c (g ())) :
    RoundAdvances s p (peek >>= f) := by
  refine roundAdvances_of_meets ?_
  rw [meets_bind, meets_peek]
  rcases h p.peek with ⟨b, hb⟩ | ⟨hk, g, hg, c, hbuilt⟩
  · rw [hb, meets_pure]
    exact fun h => absurd h Bool.false_ne_true
  · have hne : p.current.kind ≠ .eof := fun he => hk (hp.genuine.kind_advance_of_eof he)
    have hlt : place s p < place s p.advance := hp.place_lt_advance hne (Nat.le_refl _)
    rw [hg, meets_bind, meets_advance]
    exact (hbuilt.keeps (kept_le_place _) hlt).mono (fun o q hq _ => hq) fun _ _ => trivial

theorem skipRound_advances (hp : p.Reachable s) (depth : Nat) :
    RoundAdvances s p (skipRound depth) := by
  refine roundAdvances_of_meets ?_
  simp only [skipRound, meets_bind, meets_current, meets_peek, meets_onClosed]
  split
  · exact fun h => absurd h Bool.false_ne_true
  next hk =>
  have hmove : place s p < place s p.advance := hp.place_lt_advance hk (Nat.le_refl _)
  split
  · exact fun _ => hmove
  split
  · split
    · exact fun h => absurd h Bool.false_ne_true
    · exact fun h => absurd h Bool.false_ne_true
    · exact fun _ => hmove
  split
  · exact fun h => absurd h Bool.false_ne_true
  · exact fun _ => hmove

theorem parametersRound_advances (hp : p.Reachable s) (names : List Node) :
    RoundAdvances s p (parametersRound names) := by
  refine roundAdvances_peek hp fun t => ?_
  by_cases hk : t.kind = .comma
  · rw [if_pos hk]
    exact .inr ⟨by simp [hk], _, rfl, .fresh, .bind (.expect _) fun _ =>
      .bind (identifier_parallel (τ := σ)).built_left fun _ => .pure _⟩
  · rw [if_neg hk]
    exact .inl ⟨_, rfl⟩

section Rules

variable {expr : Nat → Parse σ Node}
  (he : ∀ (i : Bool) floor, Parallel i .fresh .settled Node.LooksLike (expr floor) (expr floor))

include he

theorem expressionsRound_advances (hp : p.Reachable s) (items : List Node) :
    RoundAdvances s p (expressionsRound expr items) := by
  refine roundAdvances_peek hp fun t => ?_
  by_cases hk : t.kind = .comma
  · rw [if_pos hk]
    exact .inr ⟨by simp [hk], _, rfl, .settled, .bind .advance fun _ =>
      .bind (he true _).built_left fun _ => .pure _⟩
  · rw [if_neg hk]
    exact .inl ⟨_, rfl⟩

theorem operatorsRound_advances (hp : p.Reachable s) (fuel floor : Nat) (left : Node) :
    RoundAdvances s p (operatorsRound expr fuel floor left) := by
  refine roundAdvances_peek hp fun t => ?_
  by_cases hk : t.kind ≠ .semicolon ∧ floor < t.kind.level.power
  · rw [if_pos hk]
    rcases infixRule_parallel (i := true) he fuel fuel t.kind with
      ⟨hnone, -⟩ | ⟨rule, rule', hr, -, hrule⟩
    · rw [hnone]
      exact .inl ⟨_, rfl⟩
    · rw [hr]
      exact .inr ⟨(plain_of_infixRule hr).1, _, rfl, .settled,
        .bind (hrule left left (.refl left)).built_left fun _ => .pure _⟩
  · rw [if_neg hk]
    exact .inl ⟨_, rfl⟩

/-- **Statements.** Behind a statement comes a move, unless the statement was dropped and the parser
has been left on a brace that ends the sequence. It has not begun there. -/
theorem statementsRound_advances (hp : p.Reachable s) (fuel : Nat) {ends : TokenKind → Bool}
    (heof : ends .eof = true) (before : List Node) :
    RoundAdvances s p (statementsRound expr fuel ends before) := by
  have hkept : Kept fun q : Parser σ => q.Reachable s ∧ place s p ≤ place s q :=
    kept_reachable.and (kept_le_place _)
  refine roundAdvances_of_meets ?_
  rw [statementsRound, meets_bind, meets_current]
  split
  · exact fun h => absurd h Bool.false_ne_true
  next hends =>
  have hne : p.current.kind ≠ .eof := fun h => hends (h ▸ heof)
  have hstatement : Built true .fresh .settled (statement expr) :=
    (statement_parallel he).built_left
  rw [meets_bind, meets_attempt]
  refine (hstatement.keeps hkept ⟨hp, Nat.le_refl _⟩).mono (fun this q hq => ?_) fun q hq => ?_
  · exact fun _ => hp.place_lt_advance hne hq.2
  -- The statement is dropped and the rest of it skipped.
  have hskip : Built true .reported .reported (synchronize (σ := σ) fuel) :=
    (synchronize_parallel (τ := σ) fuel fuel).built_left
  rw [meets_bind]
  refine ((hskip.keeps hkept (hkept.drop q hq)).and (synchronize_onBrace fuel q.drop)).mono
    (fun onOuterBrace r hr => ?_) fun _ _ => trivial
  obtain ⟨⟨hreach, hle⟩, hbrace⟩ := hr
  split
  · next houter =>
    -- At the place where it has begun there is no such brace.
    refine fun _ => Nat.lt_of_le_of_ne hle fun heq => hends ?_
    have hget := hp.getElem?_place
    rw [heq, hreach.getElem?_place] at hget
    rw [← Option.some.inj hget, hbrace houter.1, houter.2]
  · exact fun _ => hp.place_lt_advance hne hle

end Rules

/-! ### Nesting -/

/-- The action, locked at all parsers but those with the property. -/
def onlyWhere (C : Parser σ → Prop) [DecidablePred C] (m : Parse σ α) : Parse σ α :=
  ⟨fun q => if C q then m.run q else .outOfFuel⟩

omit [TokenStream σ] [LawfulTokenStream σ] in
theorem run_onlyWhere {C : Parser σ → Prop} [DecidablePred C] {m : Parse σ α} (h : C q) :
    (onlyWhere C m).run q = m.run q :=
  if_pos h

omit [TokenStream σ] [LawfulTokenStream σ] in
/-- A lock that is open wherever another one is. -/
theorem onlyWhere_approximates {I C : Parser σ → Prop} [DecidablePred C] {m m' : Parse σ α}
    (hm : ∀ q, I q → (m.run q).Meets True (fun _ r => I r) I)
    (h : ∀ q, I q → C q → m.run q = m'.run q) : Approximates I (onlyWhere C m) m' := by
  intro q hq
  by_cases hC : C q
  · rw [run_onlyWhere hC]
    exact .inr ⟨h q hq hC, hm q hq⟩
  · exact .inl (if_neg hC)

/-- **Expressions inside an expression** are asked for only at later places: it makes no difference
if their reader is locked elsewhere. -/
theorem run_expressionBody_onlyWhere (hp : p.Reachable s) {N : Nat} (hN : p.ahead.length ≤ N)
    (floor : Nat) :
    (expression (N + 1) floor).run p ≠ .outOfFuel ∧
      (expressionBody (fun floor => onlyWhere (fun q => place s p < place s q)
        (expression N floor)) (N + 1) floor).run p = (expression (N + 1) floor).run p := by
  -- Locked where as many tokens are ahead, the reader does not need room for the first one.
  let locked (floor : Nat) : Parse σ Node :=
    onlyWhere (fun q => q.ahead.length < p.ahead.length) (expression N floor)
  have hhalts (floor : Nat) : Halts p.ahead.length (locked floor) := by
    intro q hq hlt
    rw [run_onlyWhere hlt]
    exact expression_halts N floor q hq (Nat.lt_of_lt_of_le hlt hN)
  have hends : (expressionBody locked (N + 1) floor).run p ≠ .outOfFuel := by
    have hbody := expressionBody_halts hhalts (Nat.le_succ_of_le hN) floor p hp.genuine
      (Nat.lt_succ_self _)
    intro hout
    rw [hout] at hbody
    exact hbody
  -- It does what the open reader does, and what the one does that is locked at earlier places.
  have hreader (floor : Nat) :
      Approximates (Reachable s) (locked floor) (expression N floor) :=
    onlyWhere_approximates (expression_moves N floor) fun q _ _ => rfl
  have hreader' (floor : Nat) : Approximates (Reachable s) (locked floor)
      (onlyWhere (fun q => place s p < place s q) (expression N floor)) :=
    onlyWhere_approximates (expression_moves N floor) fun q hq hlt =>
      (run_onlyWhere ((hp.length_ahead_lt_iff hq).1 hlt)).symm
  have hle : N + 1 ≤ N + 1 := Nat.le_refl _
  have hopen := expressionBody_approximates kept_reachable hreader hle floor p hp
  have hlater := expressionBody_approximates kept_reachable hreader' hle floor p hp
  have hopen := (hopen.resolve_left hends).1
  have hlater := (hlater.resolve_left hends).1
  rw [expression_succ, ← hopen]
  exact ⟨hends, hlater.symm⟩

end Parse

namespace Parser

open MonkeySyntax.Parse

variable {σ : Type} [TokenStream σ] [LawfulTokenStream σ] {s : σ} {p : Parser σ}

/-- Reading a program ends on the end token, wherever it begins. -/
theorem kind_current_perform_program (hp : p.Genuine) :
    (p.perform .program).2.current.kind = .eof := by
  have hdone : ((statements (Parse.expression p.fuel) p.fuel endsProgram).run p).Meets False
      (fun _ q => Onward p q) fun _ => False :=
    statements_halts (expression_halts p.fuel) (Nat.le_refl p.fuel) rfl hp p.length_ahead_lt_fuel
  obtain ⟨body, q, hrun, -⟩ := hdone.exists_done
  have hend := statements_end (Parse.expression p.fuel) p.fuel endsProgram p
  rw [hrun] at hend
  have hend : endsProgram q.current.kind = true := hend
  rw [perform, answer, expr, Parse.program, run_bind_of_done hrun]
  exact of_decide_eq_true hend

end Parser

open Parse MonkeySyntax.Parser in
/-- **Every call ends, with progress.** A parser on some tokens may have been asked anything, or may
be in the middle of a run. Whatever is asked of it then, the action ends with as much fuel as there
are tokens from the current one on, and more fuel would not change the answer. Each round of a loop
that is followed by another one leaves the parser on a later token. An expression asks for the
expressions inside it only on later tokens: if their reader is locked at all other places, what is
read is the same. And reading a program ends on the end token. -/
theorem calls_end_with_progress {σ : Type} [TokenStream σ] [LawfulTokenStream σ] (s : σ) :
    (∀ requests : List Request, ((ofStream s).performAll requests).Reachable s) ∧
      ∀ p : Parser σ, p.Reachable s →
        (toList s)[place s p]? = some p.current ∧
        (∀ (request : Request) (N : Nat), (toList s).length ≤ place s p + N →
          (request.action N).run p ≠ .outOfFuel ∧
            p.perform request = ((request.action N).run p).answered p) ∧
        (∀ N fuel before,
          RoundAdvances s p (statementsRound (expression N) fuel endsProgram before)) ∧
        (∀ N fuel before,
          RoundAdvances s p (statementsRound (expression N) fuel endsBlock before)) ∧
        (∀ depth, RoundAdvances s p (skipRound depth)) ∧
        (∀ N fuel floor left,
          RoundAdvances s p (operatorsRound (expression N) fuel floor left)) ∧
        (∀ names, RoundAdvances s p (parametersRound names)) ∧
        (∀ N items, RoundAdvances s p (expressionsRound (expression N) items)) ∧
        (∀ N floor, (toList s).length ≤ place s p + (N + 1) →
          (expressionBody (fun floor => onlyWhere (fun q => place s p < place s q)
            (expression N floor)) (N + 1) floor).run p = (expression (N + 1) floor).run p) ∧
        (p.perform .program).2.current.kind = .eof := by
  refine ⟨Reachable.start.performAll, fun p hp => ?_⟩
  have hlength := hp.length_ahead
  refine ⟨hp.getElem?_place, fun request N hN => ?_, ?_, ?_, skipRound_advances hp, ?_,
    parametersRound_advances hp, ?_, fun N floor hN => ?_, kind_current_perform_program hp.genuine⟩
  · have hroom : p.ahead.length < N := by omega
    exact ⟨run_action_ne_outOfFuel hp.genuine hroom request,
      perform_eq_answered hp.genuine hroom request⟩
  · exact fun N fuel => statementsRound_advances (expression_self N) hp fuel rfl
  · exact fun N fuel => statementsRound_advances (expression_self N) hp fuel rfl
  · exact fun N => operatorsRound_advances (expression_self N) hp
  · exact fun N => expressionsRound_advances (expression_self N) hp
  · exact (run_expressionBody_onlyWhere hp (by omega) floor).2

/-- A block with an operator that has no operand. -/
def bareBang : String := "\x7b ! \x7d"

open Parse MonkeySyntax.Parser in
/-- The statement in this block is given up on the brace that ends the block. The loop then goes on
without a move, and yet it has got ahead. -/
theorem calls_end_with_progress_bareBang :
    ∃ p q : Parser Cursor, p.Reachable (Cursor.ofString bareBang) ∧ p.current.kind = .bang ∧
      (statementsRound (expression 9) 9 endsBlock []).run p = .done (.next []) q ∧
      q.current.kind = .rightBrace ∧
      place (Cursor.ofString bareBang) p < place (Cursor.ofString bareBang) q := by
  obtain ⟨hreachable, hprogress⟩ := calls_end_with_progress (Cursor.ofString bareBang)
  have hp := hreachable [.advance]
  obtain ⟨-, -, -, hblock, -⟩ := hprogress _ hp
  have hrun : (statementsRound (expression 9) 9 endsBlock []).run
      ((ofStream (Cursor.ofString bareBang)).performAll [.advance]) =
      .done (.next []) (((ofStream (Cursor.ofString bareBang)).performAll
        [.advance, .advance]).report (.noExpression ⟨.rightBrace, "\x7d", 1, 5⟩)).drop := rfl
  exact ⟨_, _, hp, rfl, hrun, rfl, hblock 9 9 [] _ _ hrun⟩

end MonkeySyntax
