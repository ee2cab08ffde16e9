import MonkeySyntax.Parser.Program
import MonkeySyntax.Parser.Request
import MonkeySyntax.Proofs.Halting
import MonkeySyntax.Proofs.Reachable

/-!
# One diagnostic for each statement that is dropped

A parser counts the statements that it drops: those that a loop over statements has called for and
that were rejected. Whatever rule is called, and wherever, it adds one diagnostic for each statement
that is dropped on the way, and one more if it is rejected itself (`Parser.Tallies`). The books are
kept by the primitive actions. A rejection makes one diagnostic, and passes through all that follows
it without another one being made; the loop that catches it counts the statement, and the books are
even again (`Parse.Built.tallies`).

That a rule runs out of fuel would be an ending without a diagnostic and without a result. It does
not happen (`Parser.exists_rule`), so the account is one of all calls. For a whole program it says
that strict reading refuses exactly the texts of which a statement was dropped, at whatever depth.
-/

namespace MonkeySyntax

open MonkeySyntax.Scanner (Cursor)

namespace Parser

variable {σ : Type} {p q r : Parser σ} {k : Nat}

/-- From `p` to `q`, a diagnostic has been added for each statement that was dropped, and `k` more.
-/
structure Tallies (p : Parser σ) (k : Nat) (q : Parser σ) : Prop where
  diagnostics : p.diagnostics <+: q.diagnostics
  dropped_le : p.dropped ≤ q.dropped
  length_eq : q.diagnostics.length + p.dropped = p.diagnostics.length + q.dropped + k

/-- What neither reports nor drops anything leaves the books as they are. -/
theorem tallies_of_eq (hd : q.diagnostics = p.diagnostics) (hn : q.dropped = p.dropped) :
    Tallies p 0 q where
  diagnostics := hd ▸ List.prefix_rfl
  dropped_le := hn ▸ Nat.le_refl _
  length_eq := by rw [hd, hn, Nat.add_zero]

theorem Tallies.refl (p : Parser σ) : Tallies p 0 p :=
  tallies_of_eq rfl rfl

theorem Tallies.trans (h : Tallies p 0 q) (h' : Tallies q k r) : Tallies p k r where
  diagnostics := h.diagnostics.trans h'.diagnostics
  dropped_le := Nat.le_trans h.dropped_le h'.dropped_le
  length_eq := by
    have hp := h.length_eq
    have hq := h'.length_eq
    omega

theorem tallies_report (p : Parser σ) (d : Diagnostic) : Tallies p 1 (p.report d) where
  diagnostics := List.prefix_append _ _
  dropped_le := Nat.le_refl _
  length_eq := by
    rw [diagnostics_report, dropped_report, List.length_append, List.length_singleton]
    omega

/-- A rejected statement that is dropped is accounted for. -/
theorem Tallies.drop (h : Tallies p 1 q) : Tallies p 0 q.drop where
  diagnostics := h.diagnostics
  dropped_le := Nat.le_succ_of_le h.dropped_le
  length_eq := by
    have hq := h.length_eq
    rw [diagnostics_drop, dropped_drop]
    omega

/-- The diagnostics that were added, and how many they are. -/
theorem Tallies.exists_added (h : Tallies p k q) :
    ∃ added, q.diagnostics = p.diagnostics ++ added ∧
      added.length = (q.dropped - p.dropped) + k := by
  obtain ⟨added, hadded⟩ := h.diagnostics
  refine ⟨added, hadded.symm, ?_⟩
  have hlength := h.length_eq
  have hle := h.dropped_le
  rw [← hadded, List.length_append] at hlength
  omega

end Parser

namespace Parse

open MonkeySyntax.Parser

variable {σ α : Type} [TokenStream σ] {i : Bool} {b c : Stage} {m : Parse σ α}

/-- **The books are even** behind every action that is done. Behind one that has rejected the text,
one diagnostic is still to be answered for. -/
theorem Built.tallies (h : Built i b c m) (p : Parser σ) :
    (m.run p).Meets True (fun _ q => Tallies p 0 q) (Tallies p 1) := by
  induction h generalizing p with
  | pure a => exact .refl p
  | bind _ _ ihm ihf =>
    rw [meets_bind]
    -- A rejection of the first action passes through the second.
    refine (ihm p).mono (fun a q hq => ?_) fun _ hq => hq
    exact (ihf a q).mono (fun _ _ hr => hq.trans hr) fun _ hr => hq.trans hr
  | current => exact .refl p
  | peek => exact .refl p
  | onClosed => exact .refl p
  | advance => exact tallies_of_eq rfl rfl
  | closeBlock => exact tallies_of_eq p.diagnostics_closeBlock p.dropped_closeBlock
  | expect kind => exact meets_expect (fun _ => tallies_of_eq rfl rfl) fun _ => tallies_report p _
  | judge passes _ hfails ih =>
    rw [meets_bind, meets_current]
    by_cases ht : passes p.current
    · exact ih _ ht p
    · obtain ⟨d, hd⟩ := hfails _ ht
      rw [hd]
      exact tallies_report p _
  | attempt _ _ _ ihm ihsome ihnone =>
    rw [meets_bind, meets_attempt]
    refine (ihm p).mono (fun a q hq => ?_) fun q hq => ?_
    · exact (ihsome a q).mono (fun _ _ hr => hq.trans hr) fun _ hr => hq.trans hr
    · -- The loop catches the rejection and counts the statement.
      have heven := hq.drop
      exact (ihnone q.drop).mono (fun _ _ hr => heven.trans hr) fun _ hr => heven.trans hr
  | braces _ _ ihf ihg =>
    rw [meets_bind]
    refine meets_expect (fun _ => ?_) fun _ => tallies_report p _
    rw [meets_bind, meets_bind, meets_current, meets_bind, meets_advance]
    have hmoves : Tallies p 0 p.advance.advance := tallies_of_eq rfl rfl
    refine (ihf _ p.advance.advance).mono (fun a q hq => ?_) fun _ hq => hmoves.trans hq
    have heven := hmoves.trans hq
    exact (ihg a q).mono (fun _ _ hr => heven.trans hr) fun _ hr => heven.trans hr
  | outOfFuel => trivial
  | settle _ ih => exact ih p
  | forget _ ih => exact ih p

end Parse

namespace Parser

open MonkeySyntax.Parse

/-- The answer is missing. -/
def Answer.isMissing : Answer → Bool
  | nothing => true
  | _ => false

/-- The request calls a rule of the grammar. -/
def Request.callsRule : Request → Bool
  | advance | synchronize | currentLevel | peekLevel | currentIs _ | peekIs _ | expect _
  | reportExpected _ | reportNoExpression _ => false
  | _ => true

variable {σ : Type} [TokenStream σ] {s : σ} {p : Parser σ} {request : Request}

/-- A rule that is called is an action made of primitive ones, which ends with the fuel it is given,
and whose value is answered. -/
theorem exists_rule [LawfulTokenStream σ] (h : request.callsRule = true) (p : Parser σ) :
    ∃ (α : Type) (toAnswer : α → Answer) (m : Parse σ α) (c : Stage),
      p.perform request = p.answer toAnswer m ∧ (∀ a, (toAnswer a).isMissing = false) ∧
        Built true .fresh c m ∧ Halts p.fuel m := by
  have he : ∀ (i : Bool) floor, Parallel i .fresh .settled Node.LooksLike (p.expr floor)
      (p.expr floor) := expression_self p.fuel
  have hh : ∀ floor, Halts p.fuel (p.expr floor) := expression_halts p.fuel
  have hle : p.fuel ≤ p.fuel := Nat.le_refl _
  -- What has been proved of each rule is put together; the other requests call none.
  cases request <;> try exact absurd h Bool.false_ne_true
  case program =>
    refine ⟨_, .program, _, _, rfl, fun _ => rfl, (program_parallel he _ p.fuel).built_left, ?_⟩
    exact Halts.bind (fun q hq hlt => statements_halts hh hle rfl hq hlt) fun _ => halts_pure _
  case statement =>
    exact ⟨_, .node, _, _, rfl, fun _ => rfl, (statement_parallel he).built_left,
      statement_halts hh⟩
  case letStatement =>
    exact ⟨_, .node, _, _, rfl, fun _ => rfl, (letStatement_parallel he).built_left,
      (letStatement_haltsNext hh).halts⟩
  case returnStatement =>
    exact ⟨_, .node, _, _, rfl, fun _ => rfl, (returnStatement_parallel he).built_left,
      (returnStatement_haltsNext hh).halts⟩
  case expressionStatement =>
    exact ⟨_, .node, _, _, rfl, fun _ => rfl, (expressionStatement_parallel he).built_left,
      expressionStatement_halts hh⟩
  case block =>
    exact ⟨_, .node, _, _, rfl, fun _ => rfl, (block_parallel he _ p.fuel).built_left,
      (block_haltsNext hh hle).halts⟩
  case identifier =>
    exact ⟨_, .node, _, _, rfl, fun _ => rfl, (identifier_parallel (τ := σ)).built_left,
      identifier_haltsNext.halts⟩
  case integer =>
    exact ⟨_, .node, _, _, rfl, fun _ => rfl, (integer_parallel (τ := σ)).built_left,
      integer_haltsNext.halts⟩
  case boolean =>
    exact ⟨_, .node, _, _, rfl, fun _ => rfl, (boolean_parallel (τ := σ)).built_left,
      boolean_haltsNext.halts⟩
  case string =>
    exact ⟨_, .node, _, _, rfl, fun _ => rfl, (string_parallel (τ := σ)).built_left,
      string_haltsNext.halts⟩
  case unary =>
    exact ⟨_, .node, _, _, rfl, fun _ => rfl, (unary_parallel he).built_left,
      (unary_haltsNext hh).halts⟩
  case grouped =>
    exact ⟨_, .node, _, _, rfl, fun _ => rfl, (grouped_parallel he).built_left,
      (grouped_haltsNext hh).halts⟩
  case array =>
    exact ⟨_, .node, _, _, rfl, fun _ => rfl, (array_parallel he _ p.fuel).built_left,
      (array_haltsNext hh hle).halts⟩
  case conditional =>
    exact ⟨_, .node, _, _, rfl, fun _ => rfl, (conditional_parallel he _ p.fuel).built_left,
      (conditional_haltsNext hh hle).halts⟩
  case function =>
    exact ⟨_, .node, _, _, rfl, fun _ => rfl, (function_parallel he _ p.fuel).built_left,
      (function_haltsNext hh hle).halts⟩
  case parameters =>
    exact ⟨_, .nodes, _, _, rfl, fun _ => rfl, (parameters_parallel (τ := σ) _ p.fuel).built_left,
      (parameters_haltsNext hle).halts⟩
  case expressionList closing =>
    exact ⟨_, .nodes, _, _, rfl, fun _ => rfl,
      (expressionList_parallel he _ p.fuel closing).built_left,
      (expressionList_haltsNext hh hle closing).halts⟩
  case binary left =>
    exact ⟨_, .node, _, _, rfl, fun _ => rfl, (binary_parallel he (.refl left)).built_left,
      (binary_haltsNext hh left).halts⟩
  case call callee =>
    exact ⟨_, .node, _, _, rfl, fun _ => rfl, (call_parallel he _ p.fuel (.refl callee)).built_left,
      (call_haltsNext hh hle callee).halts⟩
  case expression floor =>
    exact ⟨_, .node, _, _, rfl, fun _ => rfl, (he true floor).built_left, hh floor⟩

/-- **A call of a rule** adds a diagnostic for each statement that is dropped on the way, and one
more exactly if it answers nothing. -/
theorem perform_tallies [LawfulTokenStream σ] (hp : p.Genuine) (h : request.callsRule = true) :
    Tallies p (if (p.perform request).1.isMissing then 1 else 0) (p.perform request).2 := by
  obtain ⟨α, toAnswer, m, c, hperform, hanswer, hbuilt, hhalts⟩ := exists_rule h p
  have htallies := hbuilt.tallies p
  have hends := hhalts p hp p.length_ahead_lt_fuel
  rw [hperform, answer]
  -- An answer is missing exactly if the text was rejected.
  cases hrun : m.run p with
  | done a q =>
    rw [hrun] at htallies
    change Tallies p (if (toAnswer a).isMissing then 1 else 0) q
    rw [hanswer a]
    exact htallies
  | rejected q =>
    rw [hrun] at htallies
    exact htallies
  | outOfFuel =>
    rw [hrun] at hends
    exact hends.elim

/-- A program and a block are always answered. -/
theorem perform_isMissing_of_statements [LawfulTokenStream σ] (hp : p.Genuine)
    (h : request = .program ∨ request = .block) : (p.perform request).1.isMissing = false := by
  have hstatements {q : Parser σ} (ends : TokenKind → Bool) (heof : ends .eof = true)
      (hq : q.Genuine) (hlt : q.ahead.length < p.fuel) :=
    (statements_halts (R := fun _ => False) (expression_halts p.fuel) (Nat.le_refl p.fuel) heof hq
      hlt).exists_done
  -- Nothing in a program or a block can be rejected but statements, and these are dropped.
  rcases h with rfl | rfl
  · obtain ⟨body, q, hrun, -⟩ := hstatements endsProgram rfl hp p.length_ahead_lt_fuel
    rw [perform, answer, expr, Parse.program, run_bind_of_done hrun]
    rfl
  · have hlt : p.advance.ahead.length < p.fuel :=
      Nat.lt_of_le_of_lt (Onward.advance hp).length_ahead_le p.length_ahead_lt_fuel
    obtain ⟨body, q, hrun, -⟩ := hstatements endsBlock rfl hp.advance hlt
    rw [perform, answer, expr, Parse.block, run_bind_of_done (run_current p),
      run_bind_of_done (run_advance p), run_bind_of_done hrun]
    rfl

theorem answer_keeps {α : Type} {i : Bool} {b c : Stage} {m : Parse σ α} (h : Built i b c m)
    {I : Parser σ → Prop} (hI : Kept I) (hp : I p) (toAnswer : α → Answer) :
    I (p.answer toAnswer m).2 := by
  have hm := h.keeps hI hp
  rw [answer]
  cases hrun : m.run p with
  | done a q =>
    rw [hrun] at hm
    exact hm
  | rejected q =>
    rw [hrun] at hm
    exact hm
  | outOfFuel => exact hp

/-- **What the moves of a parser keep**, every request keeps. -/
theorem perform_keeps [LawfulTokenStream σ] {I : Parser σ → Prop} (hI : Kept I) (hp : I p)
    (request : Request) : I (p.perform request).2 := by
  by_cases h : request.callsRule = true
  · obtain ⟨α, toAnswer, m, c, hperform, -, hbuilt, -⟩ := exists_rule h p
    rw [hperform]
    exact answer_keeps hbuilt hI hp toAnswer
  cases request <;> try exact absurd rfl h
  case advance => exact hI.advance p hp
  case synchronize =>
    have hbuilt : Built true .reported .reported (synchronize (σ := σ) p.fuel) :=
      (synchronize_parallel (τ := σ) _ p.fuel).built_left
    exact answer_keeps hbuilt hI hp _
  case expect kind =>
    change I (((Parse.expect kind).run p).result p).2
    rw [run_expect]
    split
    · exact hI.advance p hp
    · exact hI.report p _ hp
  case reportExpected kind => exact hI.report p _ hp
  case reportNoExpression t => exact hI.report p _ hp
  -- The other requests only look.
  all_goals exact hp

theorem performAll_keeps [LawfulTokenStream σ] {I : Parser σ → Prop} (hI : Kept I) (hp : I p)
    (requests : List Request) : I (p.performAll requests) := by
  induction requests generalizing p with
  | nil => exact hp
  | cons request requests ih => exact ih (perform_keeps hI hp request)

/-- Whatever is asked of a reachable parser leaves it reachable. -/
theorem Reachable.perform [LawfulTokenStream σ] (hp : p.Reachable s) (request : Request) :
    (p.perform request).2.Reachable s :=
  perform_keeps kept_reachable hp request

theorem Reachable.performAll [LawfulTokenStream σ] (hp : p.Reachable s) (requests : List Request) :
    (p.performAll requests).Reachable s :=
  performAll_keeps kept_reachable hp requests

end Parser

/-! ### Programs -/

/-- The parser that has read a text to its end. -/
def Parser.behindProgram (source : String) : Parser Cursor :=
  ((Parser.ofStream (Cursor.ofString source)).perform .program).2

theorem parse_diagnostics (source : String) :
    (parse source).diagnostics = (Parser.behindProgram source).diagnostics := rfl

/-- As many statements are dropped from a text as diagnostics are made. -/
theorem length_diagnostics_parse (source : String) :
    (parse source).diagnostics.length = (Parser.behindProgram source).dropped := by
  have hp := Parser.genuine_ofStream (Cursor.ofString source)
  have hrule : Parser.Request.program.callsRule = true := rfl
  have htallies := Parser.perform_tallies hp hrule
  rw [Parser.perform_isMissing_of_statements hp (.inl rfl)] at htallies
  have hlength := htallies.length_eq
  have hstart : (Parser.ofStream (Cursor.ofString source)).diagnostics.length = 0 := rfl
  have hnone : (Parser.ofStream (Cursor.ofString source)).dropped = 0 := rfl
  rw [hstart, hnone, if_neg Bool.false_ne_true] at hlength
  rw [parse_diagnostics, Parser.behindProgram]
  omega

/-- Strict reading refuses what has diagnostics. -/
theorem parseStrict_eq_error_iff (source : String) (ds : List Diagnostic) :
    parseStrict source = .error ds ↔
      (parse source).diagnostics = ds ∧ 0 < (parse source).diagnostics.length := by
  rw [parseStrict, Reading.strict]
  cases hd : (parse source).diagnostics with
  | nil => simp
  | cons d ds' => simp

/-- **One diagnostic for each statement that is dropped.** A parser on a text may have been asked
anything, or may be in the middle of a run. Whatever rule is called there, the diagnostics that the
call adds are as many as the statements that loops inside the call have dropped, and one more if the
call answers nothing, which a call for a program or for a block never does. So a text has as many
diagnostics as statements were dropped from it, at whatever depth, and strict reading refuses it if
and only if there is one. -/
theorem one_diagnostic_per_dropped (source : String) :
    (∀ requests, ((Parser.ofStream (Cursor.ofString source)).performAll requests).Reachable
      (Cursor.ofString source)) ∧
    (∀ p : Parser Cursor, p.Reachable (Cursor.ofString source) → ∀ request : Parser.Request,
      request.callsRule = true →
        (∃ added, (p.perform request).2.diagnostics = p.diagnostics ++ added ∧
          p.dropped ≤ (p.perform request).2.dropped ∧
          added.length = ((p.perform request).2.dropped - p.dropped) +
            if (p.perform request).1.isMissing then 1 else 0) ∧
        (request = .program ∨ request = .block → (p.perform request).1.isMissing = false)) ∧
    (parse source).diagnostics.length = (Parser.behindProgram source).dropped ∧
    ((∃ ds, parseStrict source = .error ds) ↔ 0 < (Parser.behindProgram source).dropped) := by
  refine ⟨fun requests => Parser.Reachable.start.performAll requests,
    fun p hp request hrule => ⟨?_, Parser.perform_isMissing_of_statements hp.genuine⟩,
    length_diagnostics_parse source, ?_⟩
  · have htallies := Parser.perform_tallies hp.genuine hrule
    obtain ⟨added, hadded, hlength⟩ := htallies.exists_added
    exact ⟨added, hadded, htallies.dropped_le, hlength⟩
  · rw [← length_diagnostics_parse]
    constructor
    · rintro ⟨ds, hds⟩
      exact ((parseStrict_eq_error_iff source ds).1 hds).2
    · intro hpos
      exact ⟨_, (parseStrict_eq_error_iff source _).2 ⟨rfl, hpos⟩⟩

/-- A sum whose left operand drops a statement and whose right operand is none. -/
def faultySum : String :=
  "fn(x) \x7b let 1; y \x7d + ]"

theorem one_diagnostic_per_dropped_faultySum :
    (Parser.ofStream (Cursor.ofString faultySum)).Reachable (Cursor.ofString faultySum) ∧
      (Parser.Request.expression 1).callsRule = true ∧
      ∃ added, ((Parser.ofStream (Cursor.ofString faultySum)).perform
        (.expression 1)).2.diagnostics = [] ++ added ∧ added.length = 1 + 1 := by
  obtain ⟨-, hcalls, -⟩ := one_diagnostic_per_dropped faultySum
  obtain ⟨⟨added, hadded, -, hlength⟩, -⟩ := hcalls _ .start (.expression 1) rfl
  -- One statement is dropped inside the call, and the call itself answers nothing.
  have hdropped : ((Parser.ofStream (Cursor.ofString faultySum)).perform
      (.expression 1)).2.dropped = 1 := by decide +kernel
  have hmissing : ((Parser.ofStream (Cursor.ofString faultySum)).perform
      (.expression 1)).1.isMissing = true := by decide +kernel
  rw [hdropped, hmissing] at hlength
  exact ⟨.start, rfl, added, hadded, hlength⟩

end MonkeySyntax
