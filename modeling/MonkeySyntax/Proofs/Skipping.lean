import Mathlib.Logic.Function.Iterate
import MonkeySyntax.Proofs.Blocks
import MonkeySyntax.Proofs.Depth

/-!
# What is skipped is balanced

Behind a rejected statement the parser skips what is left of it, and the question is where it stops.
It counts the groups that it enters and leaves. As long as one of them is open, nothing ends the
statement; and outside of all of them, the first token that may end it does (`MayEnd`): a semicolon,
the brace that closes a group entered on the way, or whatever stands before a closing brace or the
end of the input.

One brace is not counted. Where the statement was given up on the closing brace of one of its own
blocks, this brace belongs to what has been read, and the count begins behind it
(`Parser.firstCounted`). Any other closing brace on which a statement is given up ends the skipping
at once. It closes a group around the statement, and this takes some proof, since the group might
have been opened by the statement itself. It was not: up to the brace of a group around it, a
statement is read like one of a program that ends there, and so it is never given up behind such a
brace (`Parse.index_le_of_enclosed`).
-/

namespace MonkeySyntax

open TokenStream (toList)

/-- Skipping from the index `i` on may stop on the token with the index `k`, if no group is open
there: this is a semicolon, or the brace that closes a group opened on the way, or a closing brace
or the end of the input comes next. -/
def MayEnd (ts : List Token) (i k : Nat) : Prop :=
  (∃ t, ts[k]? = some t ∧ t.kind = .semicolon) ∨ (∃ m, i ≤ m ∧ Pairs ts m k) ∨
    ∃ t, ts[k + 1]? = some t ∧ (t.kind = .rightBrace ∨ t.kind = .eof)

/-- The way from the index `i` to the index `j`, where braces count from the index `first` on. -/
structure Passes (ts : List Token) (first i j : Nat) : Prop where
  /-- No token that has been passed was one to stop on. -/
  not_mayEnd : ∀ k, i ≤ k → k < j → Opens 0 (ts.extract first (k + 1)) → ¬ MayEnd ts i k
  /-- Each closing brace that has been stepped on closes a group opened on the way. -/
  exists_pairs : ∀ k t, i < k → k ≤ j → ts[k]? = some t → t.kind = .rightBrace →
    ∃ m, i ≤ m ∧ Pairs ts m k

section Lists

variable {ts : List Token} {first i j depth : Nat}

theorem passes_refl : Passes ts first i i where
  not_mayEnd _ hle hlt := absurd hle (Nat.not_le_of_lt hlt)
  exists_pairs _ _ hlt hle := absurd hlt (Nat.not_lt_of_le hle)

/-- One more token is passed. A closing brace behind it closes a group that is open, since where
none is open the token in front of the brace would have been the one to stop on. -/
theorem Passes.succ (h : Passes ts first i j) (hi : i ≤ first) (hj : first ≤ j + 1)
    (hopens : Opens depth (ts.extract first (j + 1))) (hend : depth = 0 → ¬ MayEnd ts i j) :
    Passes ts first i (j + 1) where
  not_mayEnd k hle hlt hzero := by
    rcases Nat.lt_or_eq_of_le (Nat.le_of_lt_succ hlt) with hlt | rfl
    · exact h.not_mayEnd k hle hlt hzero
    · exact hend (hopens.depth_eq hzero)
  exists_pairs k t hlt hle hk ht := by
    rcases Nat.lt_or_eq_of_le hle with hle | rfl
    · exact h.exists_pairs k t hlt (Nat.le_of_lt_succ hle) hk ht
    · cases depth with
      | zero => exact absurd (.inr (.inr ⟨t, hk, .inl ht⟩)) (hend rfl)
      | succ depth =>
        obtain ⟨m, hm, hpairs⟩ := exists_pairs_of_opens hopens hj hk ht
        exact ⟨m, Nat.le_trans hi hm, hpairs⟩

end Lists

namespace Parser

variable {σ : Type} [TokenStream σ] {s : σ} {p q r : Parser σ} {depth depth' : Nat}

/-- The index from which on skipping counts braces: it leaves out the current token if that is the
brace that ended the block finished last. -/
def firstCounted (q : Parser σ) : Nat :=
  if q.onClosed then q.index + 1 else q.index

omit [TokenStream σ] in
theorem index_le_firstCounted (q : Parser σ) : q.index ≤ q.firstCounted := by
  unfold firstCounted
  split
  · exact Nat.le_succ _
  · exact Nat.le_refl _

omit [TokenStream σ] in
theorem firstCounted_le (q : Parser σ) : q.firstCounted ≤ q.index + 1 := by
  unfold firstCounted
  split
  · exact Nat.le_refl _
  · exact Nat.le_succ _

/-! ### Moves in a row -/

theorem Reachable.iterate_advance (h : q.Reachable s) (n : Nat) :
    (Parser.advance^[n] q).Reachable s := by
  induction n with
  | zero => exact h
  | succ n ih => exact (Function.iterate_succ_apply' Parser.advance n q).symm ▸ ih.advance

theorem index_iterate_advance (n : Nat) (q : Parser σ) :
    (Parser.advance^[n] q).index = q.index + n := by
  induction n with
  | zero => rfl
  | succ n ih => rw [Function.iterate_succ_apply', index_advance, ih, Nat.add_assoc]

/-- Behind a move, the parser is on no brace that has ended a block. -/
theorem Reachable.onClosed_iterate_advance (h : q.Reachable s) (n : Nat) :
    (Parser.advance^[n + 1] q).onClosed = false := by
  rw [Function.iterate_succ_apply']
  exact (h.iterate_advance n).abreast.advance.onClosed

/-- What ends a block is a closing brace. -/
theorem Reachable.kind_of_onClosed (h : q.Reachable s) (ho : q.onClosed = true) :
    q.current.kind = .rightBrace := by
  induction h with
  | start => exact absurd ho Bool.false_ne_true
  | advance hp _ => exact absurd (hp.abreast.advance.onClosed.symm.trans ho) Bool.false_ne_true
  | report d _ ih => exact ih ho
  | drop _ ih => exact ih ho
  | @closeBlock p _ ih =>
    rw [current_closeBlock]
    by_cases hk : p.current.kind = .rightBrace
    · exact hk
    · rw [Parser.closeBlock, if_neg hk] at ho
      exact ih ho

/-! ### While skipping, and after it -/

/-- Skipping has begun at `q`, has come to `r`, and is inside `depth` groups that it has entered. -/
structure SkipsFrom (s : σ) (q : Parser σ) (depth : Nat) (r : Parser σ) : Prop where
  exists_eq : ∃ n, r = Parser.advance^[n] q
  opens : Opens depth ((toList s).extract q.firstCounted r.index)
  passes : Passes (toList s) q.firstCounted q.index r.index

/-- Skipping has begun at `q` and stopped at `r`. The answer is whether that is a brace not to be
passed. -/
structure StoppedFrom (s : σ) (q : Parser σ) (onOuterBrace : Bool) (r : Parser σ) : Prop where
  exists_eq : ∃ n, r = Parser.advance^[n] q
  passes : Passes (toList s) q.firstCounted q.index r.index
  /-- A brace that must not be passed is the token where skipping began, and it has not ended a
  block of the statement. -/
  outer : onOuterBrace = true → r = q ∧ q.current.kind = .rightBrace ∧ q.onClosed = false
  /-- Otherwise the input has come to its end, or the braces on the way cancel out and the current
  token is one to stop on. By `passes` it is the first such token. -/
  ends : onOuterBrace = false → r.current.kind = .eof ∨
    Opens 0 ((toList s).extract q.firstCounted (r.index + 1)) ∧ MayEnd (toList s) q.index r.index

theorem skipsFrom_refl (s : σ) (q : Parser σ) : SkipsFrom s q 0 q where
  exists_eq := ⟨0, rfl⟩
  opens := by
    rw [extract_of_le q.index_le_firstCounted]
    exact opens_nil
  passes := passes_refl

theorem SkipsFrom.reachable (h : SkipsFrom s q depth r) (hq : q.Reachable s) : r.Reachable s := by
  obtain ⟨n, rfl⟩ := h.exists_eq
  exact hq.iterate_advance n

theorem SkipsFrom.index_le (h : SkipsFrom s q depth r) : q.index ≤ r.index := by
  obtain ⟨n, rfl⟩ := h.exists_eq
  rw [index_iterate_advance]
  exact Nat.le_add_right _ _

/-- Only where skipping begins can the parser stand on a brace of the statement's own. -/
theorem SkipsFrom.eq_of_onClosed (h : SkipsFrom s q depth r) (hq : q.Reachable s)
    (ho : r.onClosed = true) : r = q := by
  obtain ⟨n, rfl⟩ := h.exists_eq
  cases n with
  | zero => rfl
  | succ n => exact absurd ((hq.onClosed_iterate_advance n).symm.trans ho) Bool.false_ne_true

theorem SkipsFrom.advance (h : SkipsFrom s q depth r)
    (hopens : Opens depth' ((toList s).extract q.firstCounted (r.index + 1)))
    (hend : depth' = 0 → ¬ MayEnd (toList s) q.index r.index) : SkipsFrom s q depth' r.advance where
  exists_eq := by
    obtain ⟨n, rfl⟩ := h.exists_eq
    exact ⟨n + 1, (Function.iterate_succ_apply' _ n q).symm⟩
  opens := hopens
  passes := by
    have hfirst : q.firstCounted ≤ r.index + 1 :=
      Nat.le_trans q.firstCounted_le (Nat.succ_le_succ h.index_le)
    exact h.passes.succ q.index_le_firstCounted hfirst hopens hend

variable [LawfulTokenStream σ]

/-- The current token counts, unless it is a brace of the statement's own. -/
theorem SkipsFrom.extract_succ (h : SkipsFrom s q depth r) (hq : q.Reachable s)
    (hk : r.current.kind ≠ .eof) (ho : r.onClosed = false) :
    (toList s).extract q.firstCounted (r.index + 1) =
      (toList s).extract q.firstCounted r.index ++ [r.current] := by
  refine MonkeySyntax.extract_succ ?_ ((h.reachable hq).getElem?_index hk)
  obtain ⟨n, rfl⟩ := h.exists_eq
  rw [index_iterate_advance]
  cases n with
  | zero =>
    have ho : q.onClosed = false := ho
    rw [firstCounted, ho]
    exact Nat.le_refl _
  | succ n =>
    have hle := q.firstCounted_le
    omega

/-- Outside of all groups, skipping comes to a closing brace only where it begins. -/
theorem SkipsFrom.eq_of_rightBrace (h : SkipsFrom s q 0 r) (hq : q.Reachable s)
    (hk : r.current.kind = .rightBrace) : r = q := by
  have hget := (h.reachable hq).getElem?_index (by simp [hk])
  obtain ⟨n, rfl⟩ := h.exists_eq
  cases n with
  | zero => rfl
  | succ n =>
    -- The token before it would have been the one to stop on.
    have hindex := index_iterate_advance (n + 1) q
    have hopens := h.opens
    rw [hindex] at hget hopens
    have hlt : q.index + n < (Parser.advance^[n + 1] q).index := by omega
    exact absurd (.inr (.inr ⟨_, hget, .inl hk⟩))
      (h.passes.not_mayEnd (q.index + n) (Nat.le_add_right _ _) hlt hopens)

/-- **A group is left** on a closing brace, and it is one that skipping has entered. -/
theorem SkipsFrom.leaves (h : SkipsFrom s q (depth + 1) r) (hq : q.Reachable s)
    (hk : r.current.kind = .rightBrace) (ho : r.onClosed = false) :
    Opens depth ((toList s).extract q.firstCounted (r.index + 1)) ∧
      ∃ m, q.index ≤ m ∧ Pairs (toList s) m r.index := by
  have he : r.current.kind ≠ .eof := by simp [hk]
  -- Something has been counted, since a group is open.
  have hle : q.firstCounted ≤ r.index := by
    by_contra hgt
    have hnone := h.opens
    rw [extract_of_le (by omega)] at hnone
    exact absurd (hnone.depth_eq opens_nil) (Nat.succ_ne_zero _)
  obtain ⟨m, hm, hpairs⟩ :=
    exists_pairs_of_opens h.opens hle ((h.reachable hq).getElem?_index he) hk
  rw [h.extract_succ hq he ho]
  exact ⟨h.opens.concat_rightBrace hk, m, Nat.le_trans q.index_le_firstCounted hm, hpairs⟩

/-- A token that neither enters nor leaves a group. -/
theorem SkipsFrom.opens_of_plain (h : SkipsFrom s q depth r) (hq : q.Reachable s)
    (he : r.current.kind ≠ .eof) (hl : r.current.kind ≠ .leftBrace)
    (hr : r.current.kind = .rightBrace → r.onClosed = true) :
    Opens depth ((toList s).extract q.firstCounted (r.index + 1)) := by
  cases ho : r.onClosed with
  | false =>
    rw [h.extract_succ hq he ho]
    exact h.opens.concat_of_ne hl fun hk => by simp [hr hk] at ho
  | true =>
    -- This is the brace that is left out, and nothing has been counted yet.
    obtain rfl := h.eq_of_onClosed hq ho
    have hfirst : r.firstCounted = r.index + 1 := by rw [firstCounted, ho]; rfl
    have hopens := h.opens
    rw [hfirst] at hopens ⊢
    rw [extract_of_le (Nat.le_succ _)] at hopens
    rwa [extract_of_le (Nat.le_refl _)]

/-- Where such a token is one to stop on. -/
theorem SkipsFrom.mayEnd_iff (h : SkipsFrom s q depth r) (hq : q.Reachable s)
    (he : r.current.kind ≠ .eof) (hr : r.current.kind = .rightBrace → r.onClosed = true) :
    MayEnd (toList s) q.index r.index ↔
      r.current.kind = .semicolon ∨ r.peek.kind = .rightBrace ∨ r.peek.kind = .eof := by
  have hreach := h.reachable hq
  have hcurrent := hreach.getElem?_index he
  have hpeek : (toList s)[r.index + 1]? = some r.peek := by
    rw [← List.head?_drop, ← hreach.upcoming_advance_eq he]
    exact r.advance.head?_upcoming
  have hpairs : ¬ ∃ m, q.index ≤ m ∧ Pairs (toList s) m r.index := by
    rintro ⟨m, hm, hpairs⟩
    obtain ⟨closing, hclosing, hbrace⟩ := hpairs.exists_closing
    obtain rfl : closing = r.current := Option.some.inj (hclosing.symm.trans hcurrent)
    obtain rfl := h.eq_of_onClosed hq (hr hbrace)
    exact absurd hpairs.lt (Nat.not_lt_of_le hm)
  simp [MayEnd, hcurrent, hpeek, hpairs]

end Parser

namespace Parse

open Comparison MonkeySyntax.Parser

variable {σ : Type} [TokenStream σ] [LawfulTokenStream σ] {F : Prop} {s : σ} {p q r : Parser σ}
  {N fuel depth m : Nat}

/-! ### Rounds of skipping -/

/-- **One round of skipping** counts the current token, or stops on it. -/
theorem skipRound_skipsFrom (hq : q.Reachable s) (h : SkipsFrom s q depth r)
    {R : Parser σ → Prop} :
    ((skipRound depth).run r).Meets F
      (fun
        | .next depth', r' => SkipsFrom s q depth' r' ∧ (F ∨ r'.ahead.length < r.ahead.length)
        | .stop b, r' => StoppedFrom s q b r') R := by
  have hstop (hends : r.current.kind = .eof ∨
      Opens 0 ((toList s).extract q.firstCounted (r.index + 1)) ∧
        MayEnd (toList s) q.index r.index) : StoppedFrom s q false r :=
    ⟨h.exists_eq, h.passes, fun hb => absurd hb Bool.false_ne_true, fun _ => hends⟩
  simp only [skipRound, meets_bind, meets_current, meets_peek, meets_onClosed]
  split
  · next he => exact hstop (.inl he)
  next he =>
  have hlt : F ∨ r.advance.ahead.length < r.ahead.length := .inr (length_ahead_advance_lt he)
  split
  · next hl =>
    -- A group is entered. The brace is none that has ended a block, since it opens one.
    have ho : r.onClosed = false := Bool.eq_false_iff.2 fun ho => by
      have hr := (h.reachable hq).kind_of_onClosed ho
      simp [hl] at hr
    have hopens := h.opens.concat_leftBrace hl
    rw [← h.extract_succ hq he ho] at hopens
    exact ⟨h.advance hopens fun hzero => absurd hzero (Nat.succ_ne_zero _), hlt⟩
  next hl =>
  split
  · next hbrace =>
    obtain ⟨hr, ho⟩ := hbrace
    split
    · -- No group is open that the brace could close.
      obtain rfl := h.eq_of_rightBrace hq hr
      exact ⟨h.exists_eq, h.passes, fun _ => ⟨rfl, hr, ho⟩, fun hb => Bool.noConfusion hb⟩
    · -- The last group is left.
      obtain ⟨hopens, hpairs⟩ := h.leaves hq hr ho
      exact hstop (.inr ⟨hopens, .inr (.inl hpairs)⟩)
    · -- A group is left, inside another one.
      have hopens := (h.leaves hq hr ho).1
      exact ⟨h.advance hopens fun hzero => absurd hzero (Nat.succ_ne_zero _), hlt⟩
  next hbrace =>
  -- What is left are tokens that do not count.
  have hr (hk : r.current.kind = .rightBrace) : r.onClosed = true :=
    Bool.not_eq_false _ ▸ fun ho => hbrace ⟨hk, ho⟩
  have hopens := h.opens_of_plain hq he hl hr
  have hiff := h.mayEnd_iff hq he hr
  split
  · next hend =>
    obtain ⟨rfl, hend⟩ := hend
    exact hstop (.inr ⟨hopens, hiff.2 hend⟩)
  · next hend => exact ⟨h.advance hopens fun hzero hmay => hend ⟨hzero, hiff.1 hmay⟩, hlt⟩

/-- **Skipping**, from wherever it begins. -/
theorem synchronize_stoppedFrom (hq : q.Reachable s) (hF : F ∨ q.ahead.length < fuel)
    {R : Parser σ → Prop} :
    ((synchronize fuel).run q).Meets F (fun b r => StoppedFrom s q b r) R :=
  meets_rounds (fun depth r => SkipsFrom s q depth r) (fun r => r.ahead.length)
    (fun _ _ h => (skipRound_skipsFrom hq h).mono (fun o _ h => by cases o <;> exact h)
      fun _ h => h)
    (skipsFrom_refl s q) hF

/-! ### The braces of groups around a statement -/

/-- **A statement ends before the brace that closes the group around it**, where it is given up as
where it is read: up to this brace it is read like a statement of a program that ends there. -/
theorem index_le_of_enclosed {inside after : List Token} {closing : Token} (hp : p.Genuine)
    (hb : p.Behind) (hclosing : closing.kind = .rightBrace)
    (hup : p.upcoming = inside ++ closing :: after) (hinside : ∀ t ∈ inside, t.kind ≠ .eof)
    (hbalanced : Balanced inside) (hq : (statement (expression N)).run p = .rejected q) :
    q.index ≤ p.index + inside.length := by
  have hinstep := inStep_enclosed hp hb hclosing hup hinside hbalanced
  have hf := not_final_enclosed p inside after hclosing
  -- The program is given all the fuel it needs, so it says where the statement is given up.
  generalize hp' : Parser.ofStream (TokenList.upTo inside closing) = p' at hinstep
  have hends := statement_meets (expression_meets False p'.fuel) hinstep.genuine_right
    (hp' ▸ behind_ofStream _) (.inr p'.length_upcoming_le_fuel)
  have hagrees := statement_agrees (expression_agrees _ N p'.fuel) ⟨inside, hinstep⟩
  rw [hq] at hagrees
  cases hrun : (statement (expression p'.fuel)).run p' with
  | outOfFuel =>
    rw [hrun] at hends
    exact hends.elim
  | done _ _ =>
    rw [hrun] at hagrees
    exact hagrees.elim
  | rejected q' =>
    rw [hrun] at hagrees
    obtain ⟨ts, hwithin⟩ := hagrees
    have hindex : q.index + ts.length = p.index + inside.length := hwithin.index_edge hf
    omega

omit [LawfulTokenStream σ] in
/-- A statement that begins on the brace of a finished block is given up there. So one that is given
up elsewhere begins behind all such braces. -/
theorem behind_of_rejected (hp : p.Reachable s)
    (hq : (statement (expression N)).run p = .rejected q) (ho : q.onClosed = false) :
    p.Behind := by
  refine hp.abreast.behind (Bool.eq_false_iff.2 fun hclosed => ?_)
  have hk := hp.kind_of_onClosed hclosed
  have hlet : p.current.kind ≠ .letKeyword := by simp [hk]
  have hreturn : p.current.kind ≠ .returnKeyword := by simp [hk]
  cases N with
  | zero =>
    rw [run_statement_of_ne hlet hreturn, expressionStatement,
      run_bind_of_done (run_current p), expression, run_bind_of_outOfFuel (run_outOfFuel p)] at hq
    cases hq
  | succ N =>
    rw [run_statement_of_no_rule N hlet hreturn (hk ▸ rfl)] at hq
    obtain rfl := Outcome.rejected.inj hq
    exact Bool.noConfusion (hclosed.symm.trans ho)

/-- **A brace around the statement.** Where a statement is given up on a closing brace that is none
of its own, the group of this brace was not opened in the statement. -/
theorem not_pairs_of_rejected (hp : p.Reachable s)
    (hq : (statement (expression N)).run p = .rejected q) (hk : q.current.kind = .rightBrace)
    (ho : q.onClosed = false) (hm : p.index ≤ m) : ¬ Pairs (toList s) m q.index := by
  intro hpairs
  have hb := behind_of_rejected hp hq ho
  have hends := statement_meets (expression_meets True N) hp.genuine hb (.inl trivial)
  have hreachable := statement_moves N p hp
  rw [hq] at hends hreachable
  -- As the brace is none of the statement's own, the statement stopped there before reading it.
  have hstops : StopsAt p q := hends.resolve_left fun h => by simp [h.onClosed hk] at ho
  have hqe : q.current.kind ≠ .eof := by simp [hk]
  have hlt := hpairs.lt
  have hpe : p.current.kind ≠ .eof := fun he => by
    have hlength := hp.length_le_of_eof he
    have hget := (List.getElem?_eq_some_iff.1 (hreachable.getElem?_index hqe)).1
    omega
  have hstrays := hstops.strays_eq
  rw [hp.upcoming_eq hpe, hreachable.upcoming_eq hqe] at hstrays
  -- So another closing brace comes first, and the statement does not get past that one.
  obtain ⟨inside, closing, after, hsplit, hclosing, hinside, hbefore⟩ :=
    hpairs.exists_stray hm hstrays
  have hne : ∀ t ∈ inside, t.kind ≠ .eof := by
    have hlist := List.take_append_drop p.index (toList s)
    rw [hsplit, ← List.append_assoc] at hlist
    exact fun t ht => TokenStream.kind_ne_eof_of_toList_eq hlist.symm (List.mem_append_right _ ht)
  have hindex := index_le_of_enclosed hp.genuine hb hclosing ((hp.upcoming_eq hpe).trans hsplit)
    hne hinside hq
  omega

/-- **What is skipped is balanced.** A statement is read from a place along a run on the stream, and
rejected. Then the parser moves on, token by token, and where it stops is told by the braces on its
way: see `StoppedFrom` for what is true there and `Passes` for what is not true before. In
particular, no semicolon outside of all groups is passed. If skipping says that it stands on the
brace of a group around the statement, then no group is closed there that was opened in the
statement, be it in a block that the statement has read or elsewhere. Fuel runs out only where there
is less of it than there are tokens to come, and never in a run over a whole stream, since such a
run would run out of fuel as well (`Reading.exists_run`). -/
theorem synchronize_balanced (hp : p.Reachable s)
    (hq : (statement (expression N)).run p = .rejected q) (fuel : Nat) :
    (synchronize fuel).run q.drop = .outOfFuel ∧ fuel < q.upcoming.length ∨
      ∃ b r, (synchronize fuel).run q.drop = .done b r ∧ StoppedFrom s q.drop b r ∧
        (b = true → ∀ m, p.index ≤ m → ¬ Pairs (toList s) m q.index) ∧
        ∀ k t, q.index ≤ k → k < r.index → (toList s)[k]? = some t → t.kind = .semicolon →
          ¬ Opens 0 ((toList s).extract q.firstCounted (k + 1)) := by
  have hreachable := statement_moves N p hp
  rw [hq] at hreachable
  have hstop : ((synchronize fuel).run q.drop).Meets (fuel < q.upcoming.length)
      (fun b r => StoppedFrom s q.drop b r) fun _ => False := by
    refine synchronize_stoppedFrom (Reachable.drop hreachable) ?_
    rw [ahead_drop, q.length_upcoming]
    omega
  cases hrun : (synchronize fuel).run q.drop with
  | outOfFuel =>
    rw [hrun] at hstop
    exact .inl ⟨rfl, hstop⟩
  | rejected r =>
    rw [hrun] at hstop
    exact hstop.elim
  | done b r =>
    rw [hrun] at hstop
    have hstop : StoppedFrom s q.drop b r := hstop
    refine .inr ⟨b, r, rfl, hstop, fun hb m hm => ?_, fun k t hle hlt hk ht hopens => ?_⟩
    · obtain ⟨-, hkind, ho⟩ := hstop.outer hb
      exact not_pairs_of_rejected hp hq hkind ho hm
    · exact hstop.passes.not_mayEnd k hle hlt hopens (.inl ⟨t, hk, ht⟩)

/-- A group that lacks its closing parenthesis behind the block of a function. -/
def closedInner : String :=
  "if (c) \x7b (fn() \x7b 1 \x7d 5; 6 \x7d"

/-- The parser on the first token of this group. -/
def closedInnerStart : Parser Scanner.Cursor :=
  Parser.advance^[5] (Parser.ofStream (Scanner.Cursor.ofString closedInner))

/-- The parser where the group has been given up. -/
def closedInnerEnd : Parser Scanner.Cursor :=
  (Parser.advance^[6] closedInnerStart).closeBlock.report
    (.expected .rightParen ⟨.int, "5", 1, 22⟩)

/-- The brace on which the group has been given up is the function's own, and not counted. Skipping
goes on to the semicolon. -/
theorem synchronize_balanced_closedInner :
    closedInnerStart.Reachable (Scanner.Cursor.ofString closedInner) ∧
      (statement (expression 20)).run closedInnerStart = .rejected closedInnerEnd ∧
      ∃ r, (synchronize 20).run closedInnerEnd.drop = .done false r ∧
        r.current = ⟨.semicolon, ";", 1, 23⟩ ∧
        Opens 0 ((tokenize closedInner).extract 12 (r.index + 1)) := by
  have hreachable : closedInnerStart.Reachable (Scanner.Cursor.ofString closedInner) :=
    Reachable.start.iterate_advance 5
  have hrejected : (statement (expression 20)).run closedInnerStart =
    .rejected closedInnerEnd := rfl
  have hrun : (synchronize 20).run closedInnerEnd.drop =
    .done false (Parser.advance^[2] closedInnerEnd.drop) := rfl
  refine ⟨hreachable, hrejected, _, hrun, rfl, ?_⟩
  rcases synchronize_balanced hreachable hrejected 20 with
    ⟨hout, -⟩ | ⟨b, r, hdone, hstop, -⟩
  · cases hrun.symm.trans hout
  · obtain ⟨rfl, rfl⟩ := Outcome.done.inj (hrun.symm.trans hdone)
    rcases hstop.ends rfl with heof | ⟨hopens, -⟩
    · exact TokenKind.noConfusion heof
    · exact hopens

end Parse

end MonkeySyntax
