import MonkeySyntax.Proofs.Approximation
import MonkeySyntax.Proofs.Counting

/-!
# Requests as actions

A request is answered with as much fuel as the parser asks for where it stands. What would come of
it with some other amount is said by the action that the request stands for
(`Parser.Request.action`). This action ends wherever there is fuel for the tokens ahead, and from
there on it does not matter how much there is: the answer is always the same
(`Parser.perform_eq_answered`).
-/

namespace MonkeySyntax

open MonkeySyntax.Parser (Answer)

/-- The answer that an action has led to, and the parser behind it; nothing is answered where the
text was rejected. -/
def Outcome.answered {σ : Type} (before : Parser σ) (o : Outcome σ Answer) : Answer × Parser σ :=
  ((o.result before).1.getD .nothing, (o.result before).2)

namespace Parser

open MonkeySyntax.Parse

variable {σ α : Type} {p : Parser σ}

/-- The action, with its value made an answer. -/
def answering (toAnswer : α → Answer) (m : Parse σ α) : Parse σ Answer :=
  m >>= fun a => pure (toAnswer a)

variable [TokenStream σ]

/-- The request, answered as it is. -/
def Request.asIs (request : Request) : Parse σ Answer :=
  ⟨fun p => .done (p.perform request).1 (p.perform request).2⟩

/-- The action that a request stands for. The fuel is for the loops, and for expressions inside
expressions; a request that needs none of them is answered as it is. -/
def Request.action (fuel : Nat) : Request → Parse σ Answer
  | synchronize => answering .truth (Parse.synchronize fuel)
  | program => answering .program (Parse.program (Parse.expression fuel) fuel)
  | statement => answering .node (Parse.statement (Parse.expression fuel))
  | letStatement => answering .node (Parse.letStatement (Parse.expression fuel))
  | returnStatement => answering .node (Parse.returnStatement (Parse.expression fuel))
  | expressionStatement => answering .node (Parse.expressionStatement (Parse.expression fuel))
  | block => answering .node (Parse.block (Parse.expression fuel) fuel)
  | identifier => answering .node Parse.identifier
  | integer => answering .node Parse.integer
  | boolean => answering .node Parse.boolean
  | string => answering .node Parse.string
  | unary => answering .node (Parse.unary (Parse.expression fuel))
  | grouped => answering .node (Parse.grouped (Parse.expression fuel))
  | array => answering .node (Parse.array (Parse.expression fuel) fuel)
  | conditional => answering .node (Parse.conditional (Parse.expression fuel) fuel)
  | function => answering .node (Parse.function (Parse.expression fuel) fuel)
  | parameters => answering .nodes (Parse.parameters fuel)
  | expressionList closing =>
    answering .nodes (Parse.expressionList (Parse.expression fuel) fuel closing)
  | binary left => answering .node (Parse.binary (Parse.expression fuel) left)
  | call callee => answering .node (Parse.call (Parse.expression fuel) fuel callee)
  | expression floor => answering .node (Parse.expression fuel floor)
  | request => request.asIs

omit [TokenStream σ] in
theorem answer_eq_answered (toAnswer : α → Answer) (m : Parse σ α) (p : Parser σ) :
    p.answer toAnswer m = ((answering toAnswer m).run p).answered p := by
  rw [answer, answering, run_bind]
  cases m.run p <;> rfl

/-- A request is answered by its action, with the fuel that the parser asks for. -/
theorem perform_eq_answered_fuel (request : Request) (p : Parser σ) :
    p.perform request = ((request.action p.fuel).run p).answered p := by
  cases request
  case advance | currentLevel | peekLevel | currentIs | peekIs | expect | reportExpected |
    reportNoExpression => rfl
  case identifier => exact answer_eq_answered .node Parse.identifier p
  case boolean => exact answer_eq_answered .node Parse.boolean p
  case string => exact answer_eq_answered .node Parse.string p
  all_goals exact answer_eq_answered _ _ p

omit [TokenStream σ] in
theorem answering_approximates {I : Parser σ → Prop} {m m' : Parse σ α} (h : Approximates I m m')
    (toAnswer : α → Answer) : Approximates I (answering toAnswer m) (answering toAnswer m') :=
  h.bind fun _ => approximates_pure _

variable [LawfulTokenStream σ]

theorem asIs_approximates {I : Parser σ → Prop} (hI : Kept I) (request : Request) :
    Approximates (σ := σ) I request.asIs request.asIs := fun _ hp =>
  .inr ⟨rfl, perform_keeps hI hp request⟩

/-- A request that needs no fuel makes a move or none. -/
theorem asIs_halts (N : Nat) (request : Request) : Halts (σ := σ) N request.asIs := fun p hp _ =>
  perform_keeps (kept_onward p) (.refl hp) request

/-- **More fuel** does not change what a request leads to. -/
theorem action_approximates {I : Parser σ → Prop} (hI : Kept I) {N N' : Nat} (h : N ≤ N')
    (request : Request) : Approximates (σ := σ) I (request.action N) (request.action N') := by
  have he (floor : Nat) :
      Approximates (σ := σ) I (Parse.expression N floor) (Parse.expression N' floor) :=
    expression_approximates hI h floor
  cases request
  case synchronize => exact answering_approximates (synchronize_approximates hI h) _
  case program => exact answering_approximates (program_approximates hI he h) _
  case statement => exact answering_approximates (statement_approximates hI he) _
  case letStatement => exact answering_approximates (letStatement_approximates hI he) _
  case returnStatement => exact answering_approximates (returnStatement_approximates hI he) _
  case expressionStatement =>
    exact answering_approximates (expressionStatement_approximates hI he) _
  case block => exact answering_approximates (block_approximates hI he h) _
  case identifier => exact answering_approximates identifier_approximates _
  case integer => exact answering_approximates (integer_approximates hI) _
  case boolean => exact answering_approximates boolean_approximates _
  case string => exact answering_approximates string_approximates _
  case unary => exact answering_approximates (unary_approximates hI he) _
  case grouped => exact answering_approximates (grouped_approximates hI he) _
  case array => exact answering_approximates (array_approximates hI he h) _
  case conditional => exact answering_approximates (conditional_approximates hI he h) _
  case function => exact answering_approximates (function_approximates hI he h) _
  case parameters => exact answering_approximates (parameters_approximates hI h) _
  case expressionList closing =>
    exact answering_approximates (expressionList_approximates hI he h closing) _
  case binary left => exact answering_approximates (binary_approximates hI he left) _
  case call callee => exact answering_approximates (call_approximates hI he h callee) _
  case expression floor => exact answering_approximates (he floor) _
  -- The other requests do not depend on fuel.
  all_goals exact asIs_approximates hI _

omit [LawfulTokenStream σ] in
theorem answering_halts {N : Nat} {m : Parse σ α} (h : Halts N m) (toAnswer : α → Answer) :
    Halts N (answering toAnswer m) :=
  h.bind fun _ => halts_pure _

/-- **Every request ends** where there is fuel for the tokens ahead. -/
theorem action_halts (N : Nat) (request : Request) : Halts (σ := σ) N (request.action N) := by
  have he : ∀ floor, Halts (σ := σ) N (Parse.expression N floor) := expression_halts N
  have hN : N ≤ N := Nat.le_refl N
  cases request
  case synchronize =>
    refine answering_halts (fun p hp hlt => ?_) _
    exact (synchronize_halts hp hlt).mono (fun _ _ hq => hq.1) fun _ hq => hq
  case program =>
    refine answering_halts (Halts.bind (fun p hp hlt => ?_) fun _ => halts_pure _) _
    exact statements_halts he hN rfl hp hlt
  case statement => exact answering_halts (statement_halts he) _
  case letStatement => exact answering_halts (letStatement_haltsNext he).halts _
  case returnStatement => exact answering_halts (returnStatement_haltsNext he).halts _
  case expressionStatement => exact answering_halts (expressionStatement_halts he) _
  case block => exact answering_halts (block_haltsNext he hN).halts _
  case identifier => exact answering_halts identifier_haltsNext.halts _
  case integer => exact answering_halts integer_haltsNext.halts _
  case boolean => exact answering_halts boolean_haltsNext.halts _
  case string => exact answering_halts string_haltsNext.halts _
  case unary => exact answering_halts (unary_haltsNext he).halts _
  case grouped => exact answering_halts (grouped_haltsNext he).halts _
  case array => exact answering_halts (array_haltsNext he hN).halts _
  case conditional => exact answering_halts (conditional_haltsNext he hN).halts _
  case function => exact answering_halts (function_haltsNext he hN).halts _
  case parameters => exact answering_halts (parameters_haltsNext hN).halts _
  case expressionList closing =>
    exact answering_halts (expressionList_haltsNext he hN closing).halts _
  case binary left => exact answering_halts (binary_haltsNext he left).halts _
  case call callee => exact answering_halts (call_haltsNext he hN callee).halts _
  case expression floor => exact answering_halts (he floor) _
  all_goals exact asIs_halts N _

theorem run_action_ne_outOfFuel (hp : p.Genuine) {N : Nat} (hN : p.ahead.length < N)
    (request : Request) : (request.action N).run p ≠ .outOfFuel := by
  intro hout
  have hends := action_halts N request p hp hN
  rw [hout] at hends
  exact hends

/-- **A request is answered** in the same way with any fuel that suffices for the tokens ahead. -/
theorem perform_eq_answered (hp : p.Genuine) {N : Nat} (hN : p.ahead.length < N)
    (request : Request) : p.perform request = ((request.action N).run p).answered p := by
  have hkept : Kept fun _ : Parser σ => True :=
    ⟨fun _ _ => trivial, fun _ _ _ => trivial, fun _ _ => trivial, fun _ _ => trivial⟩
  have hends := run_action_ne_outOfFuel hp hN request
  have hends' := run_action_ne_outOfFuel hp p.length_ahead_lt_fuel request
  rw [perform_eq_answered_fuel]
  -- The smaller one of two amounts of fuel suffices, so the larger one leads to the same.
  rcases Nat.le_total N p.fuel with hle | hle
  · have hsame := action_approximates hkept hle request p trivial
    rw [(hsame.resolve_left hends).1]
  · have hsame := action_approximates hkept hle request p trivial
    rw [(hsame.resolve_left hends').1]

end Parser

end MonkeySyntax
