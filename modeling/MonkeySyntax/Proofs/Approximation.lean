import MonkeySyntax.Proofs.Halting

/-!
# More fuel changes nothing

Fuel is there to make it evident that reading ends, and it has no say in what is read. An action
that is given less of it may run out where one that is given more goes on, and otherwise does the
same (`Parse.Approximates`). This holds of a rule if it holds of the reader of expressions that the
rule is given, whatever that reader is; so it holds of the rules with any two amounts of fuel
(`Parse.expression_approximates`), and also of rules whose reader has been kept from being entered
at some places.

Two readers may be known to agree only on parsers of which something holds, such as that they come
from a certain stream. So a property is carried along that the moves of a parser keep
(`Parser.Kept`).
-/

namespace MonkeySyntax

namespace Parse

open MonkeySyntax.Parser

variable {σ α β : Type} {I : Parser σ → Prop}

/-- From parsers with the property, the first action does what the second does, and leaves behind
parsers with the property, unless it runs out of fuel. -/
def Approximates (I : Parser σ → Prop) (m m' : Parse σ α) : Prop :=
  ∀ p, I p → m.run p = .outOfFuel ∨
    m.run p = m'.run p ∧ (m.run p).Meets True (fun _ q => I q) I

/-! ### Sequences and loops -/

theorem Approximates.bind {m m' : Parse σ α} {f f' : α → Parse σ β} (hm : Approximates I m m')
    (hf : ∀ a, Approximates I (f a) (f' a)) : Approximates I (m >>= f) (m' >>= f') := by
  intro p hp
  rcases hm p hp with hout | ⟨heq, hkept⟩
  · exact .inl (run_bind_of_outOfFuel hout)
  -- The second actions are compared at the parser that both of the first ones leave behind.
  cases hrun : m.run p with
  | done a q =>
    rw [hrun] at heq hkept
    rw [run_bind_of_done hrun, run_bind_of_done heq.symm]
    exact hf a q hkept
  | rejected q =>
    rw [hrun] at heq hkept
    rw [run_bind_of_rejected hrun, run_bind_of_rejected heq.symm]
    exact .inr ⟨rfl, hkept⟩
  | outOfFuel => exact .inl (run_bind_of_outOfFuel hrun)

theorem Approximates.attempt {m m' : Parse σ α} (hdrop : ∀ p, I p → I p.drop)
    (h : Approximates I m m') : Approximates I (attempt m) (attempt m') := by
  intro p hp
  rw [run_attempt, run_attempt]
  rcases h p hp with hout | ⟨heq, hkept⟩
  · rw [hout]
    exact .inl rfl
  rw [← heq]
  cases hrun : m.run p with
  | done a q =>
    rw [hrun] at hkept
    exact .inr ⟨rfl, hkept⟩
  | rejected q =>
    rw [hrun] at hkept
    exact .inr ⟨rfl, hdrop q hkept⟩
  | outOfFuel => exact .inl rfl

theorem approximates_outOfFuel (m' : Parse σ α) : Approximates I outOfFuel m' :=
  fun _ _ => .inl rfl

theorem approximates_pure (a : α) : Approximates I (pure a) (pure a : Parse σ α) :=
  fun _ hp => .inr ⟨rfl, hp⟩

theorem approximates_current : Approximates I current current := fun _ hp => .inr ⟨rfl, hp⟩

theorem approximates_peek : Approximates I peek peek := fun _ hp => .inr ⟨rfl, hp⟩

theorem approximates_onClosed : Approximates I onClosed onClosed := fun _ hp => .inr ⟨rfl, hp⟩

/-- A loop that may go through fewer rounds. -/
theorem Approximates.rounds {round round' : α → Parse σ (Round α β)}
    (h : ∀ a, Approximates I (round a) (round' a)) {bound bound' : Nat} (hle : bound ≤ bound')
    (a : α) : Approximates I (rounds round bound a) (rounds round' bound' a) := by
  induction bound generalizing bound' a with
  | zero => exact approximates_outOfFuel _
  | succ bound ih =>
    -- There is a round on the right wherever there is one on the left.
    obtain ⟨bound', rfl⟩ := Nat.exists_eq_add_of_le' (Nat.lt_of_lt_of_le (Nat.succ_pos _) hle)
    refine (h a).bind fun x => ?_
    cases x with
    | next a => exact ih (Nat.le_of_succ_le_succ hle) a
    | stop b => exact approximates_pure b

variable [TokenStream σ] (hI : Kept I)

include hI

section Primitive

theorem approximates_advance : Approximates I advance advance :=
  fun p hp => .inr ⟨rfl, hI.advance p hp⟩

theorem approximates_closeBlock : Approximates I closeBlock closeBlock :=
  fun p hp => .inr ⟨rfl, hI.closeBlock p hp⟩

theorem approximates_reject (d : Diagnostic) :
    Approximates I (reject d) (reject d : Parse σ α) :=
  fun p hp => .inr ⟨rfl, hI.report p d hp⟩

theorem approximates_expect (kind : TokenKind) : Approximates I (expect kind) (expect kind) :=
  fun p hp => .inr ⟨rfl, meets_expect (fun _ => hI.advance p hp) fun _ => hI.report p _ hp⟩

end Primitive

/-! ### Names, literals and recovery -/

omit hI [TokenStream σ] in
theorem identifier_approximates : Approximates I identifier identifier :=
  approximates_current.bind fun _ => approximates_pure _

omit hI [TokenStream σ] in
theorem boolean_approximates : Approximates I boolean boolean :=
  approximates_current.bind fun _ => approximates_pure _

omit hI [TokenStream σ] in
theorem string_approximates : Approximates I string string :=
  approximates_current.bind fun _ => approximates_pure _

theorem integer_approximates : Approximates I integer integer := by
  refine approximates_current.bind fun t => ?_
  split
  · exact approximates_pure _
  · exact approximates_reject hI _

theorem optionalSemicolon_approximates : Approximates I optionalSemicolon optionalSemicolon := by
  refine approximates_peek.bind fun t => ?_
  split
  · exact approximates_advance hI
  · exact approximates_pure _

variable {fuel fuel' : Nat}

theorem synchronize_approximates (hle : fuel ≤ fuel') :
    Approximates I (synchronize fuel) (synchronize fuel') := by
  have hmove (k : Nat) :
      Approximates I (advance >>= fun _ => pure (.next k : Round Nat Bool))
        (advance >>= fun _ => pure (.next k)) :=
    (approximates_advance hI).bind fun _ => approximates_pure _
  refine .rounds (fun depth => ?_) hle 0
  refine approximates_current.bind fun t => approximates_peek.bind fun u => ?_
  refine approximates_onClosed.bind fun own => ?_
  split
  · exact approximates_pure _
  split
  · exact hmove _
  split
  · split
    · exact approximates_pure _
    · exact approximates_pure _
    · exact hmove _
  split
  · exact approximates_pure _
  · exact hmove _

/-! ### The rules of the grammar -/

section Rules

variable {expr expr' : Nat → Parse σ Node}
  (he : ∀ floor, Approximates I (expr floor) (expr' floor)) (hle : fuel ≤ fuel')

include he

theorem unary_approximates : Approximates I (unary expr) (unary expr') :=
  approximates_current.bind fun _ => (approximates_advance hI).bind fun _ =>
    (he _).bind fun _ => approximates_pure _

theorem binary_approximates (left : Node) : Approximates I (binary expr left) (binary expr' left) :=
  approximates_current.bind fun _ => (approximates_advance hI).bind fun _ =>
    (he _).bind fun _ => approximates_pure _

theorem grouped_approximates : Approximates I (grouped expr) (grouped expr') :=
  (approximates_advance hI).bind fun _ => (he _).bind fun _ =>
    (approximates_expect hI _).bind fun _ => approximates_pure _

theorem letStatement_approximates : Approximates I (letStatement expr) (letStatement expr') := by
  refine approximates_current.bind fun t => (approximates_expect hI _).bind fun _ => ?_
  refine identifier_approximates.bind fun name => (approximates_expect hI _).bind fun _ => ?_
  refine (approximates_advance hI).bind fun _ => (he _).bind fun value => ?_
  exact (optionalSemicolon_approximates hI).bind fun _ => approximates_pure _

theorem returnStatement_approximates :
    Approximates I (returnStatement expr) (returnStatement expr') := by
  refine approximates_current.bind fun t => (approximates_advance hI).bind fun _ => ?_
  refine (he _).bind fun value => ?_
  exact (optionalSemicolon_approximates hI).bind fun _ => approximates_pure _

theorem expressionStatement_approximates :
    Approximates I (expressionStatement expr) (expressionStatement expr') :=
  approximates_current.bind fun _ => (he _).bind fun _ =>
    (optionalSemicolon_approximates hI).bind fun _ => approximates_pure _

theorem statement_approximates : Approximates I (statement expr) (statement expr') := by
  refine approximates_current.bind fun t => ?_
  split
  · exact letStatement_approximates hI he
  · exact returnStatement_approximates hI he
  · exact expressionStatement_approximates hI he

include hle

theorem expressionList_approximates (closing : TokenKind) :
    Approximates I (expressionList expr fuel closing) (expressionList expr' fuel' closing) := by
  have hround (items : List Node) :
      Approximates I (expressionsRound expr items) (expressionsRound expr' items) := by
    refine approximates_peek.bind fun t => ?_
    split
    · exact (approximates_advance hI).bind fun _ => (approximates_advance hI).bind fun _ =>
        (he _).bind fun _ => approximates_pure _
    · exact approximates_pure _
  refine approximates_peek.bind fun t => ?_
  split
  · exact (approximates_advance hI).bind fun _ => approximates_pure _
  · refine (approximates_advance hI).bind fun _ => (he _).bind fun item => ?_
    refine (Approximates.rounds hround hle [item]).bind fun items => ?_
    exact (approximates_expect hI _).bind fun _ => approximates_pure _

theorem array_approximates : Approximates I (array expr fuel) (array expr' fuel') :=
  approximates_current.bind fun _ => (expressionList_approximates hI he hle _).bind fun _ =>
    approximates_pure _

theorem call_approximates (callee : Node) :
    Approximates I (call expr fuel callee) (call expr' fuel' callee) :=
  approximates_current.bind fun _ => (expressionList_approximates hI he hle _).bind fun _ =>
    approximates_pure _

omit he in
theorem parameters_approximates : Approximates I (parameters fuel) (parameters fuel') := by
  have hround (names : List Node) :
      Approximates I (parametersRound names) (parametersRound names) := by
    refine approximates_peek.bind fun t => ?_
    split
    · exact (approximates_advance hI).bind fun _ => (approximates_expect hI _).bind fun _ =>
        identifier_approximates.bind fun _ => approximates_pure _
    · exact approximates_pure _
  refine approximates_peek.bind fun t => ?_
  split
  · exact (approximates_advance hI).bind fun _ => approximates_pure _
  · refine (approximates_expect hI _).bind fun _ => identifier_approximates.bind fun name => ?_
    refine (Approximates.rounds hround hle [name]).bind fun names => ?_
    exact (approximates_expect hI _).bind fun _ => approximates_pure _

theorem statements_approximates (ends : TokenKind → Bool) :
    Approximates I (statements expr fuel ends) (statements expr' fuel' ends) := by
  refine .rounds (fun before => ?_) hle []
  refine approximates_current.bind fun t => ?_
  split
  · exact approximates_pure _
  refine ((statement_approximates hI he).attempt hI.drop).bind fun o => ?_
  cases o with
  | some this => exact (approximates_advance hI).bind fun _ => approximates_pure _
  | none =>
    refine (synchronize_approximates hI hle).bind fun onOuterBrace => ?_
    split
    · exact approximates_pure _
    · exact (approximates_advance hI).bind fun _ => approximates_pure _

theorem program_approximates : Approximates I (program expr fuel) (program expr' fuel') :=
  (statements_approximates hI he hle _).bind fun _ => approximates_pure _

theorem block_approximates : Approximates I (block expr fuel) (block expr' fuel') := by
  refine approximates_current.bind fun t => (approximates_advance hI).bind fun _ => ?_
  refine (statements_approximates hI he hle _).bind fun body => ?_
  exact (approximates_closeBlock hI).bind fun _ => approximates_pure _

theorem conditional_approximates :
    Approximates I (conditional expr fuel) (conditional expr' fuel') := by
  have hblock := block_approximates hI he hle
  have halternative : Approximates I (alternative expr fuel) (alternative expr' fuel') := by
    refine approximates_peek.bind fun t => ?_
    split
    · exact (approximates_advance hI).bind fun _ => (approximates_expect hI _).bind fun _ =>
        hblock.bind fun _ => approximates_pure _
    · exact approximates_pure _
  refine approximates_current.bind fun t => (approximates_expect hI _).bind fun _ => ?_
  refine (approximates_advance hI).bind fun _ => (he _).bind fun condition => ?_
  refine (approximates_expect hI _).bind fun _ => (approximates_expect hI _).bind fun _ => ?_
  exact hblock.bind fun consequence => halternative.bind fun _ => approximates_pure _

theorem function_approximates : Approximates I (function expr fuel) (function expr' fuel') := by
  refine approximates_current.bind fun t => (approximates_expect hI _).bind fun _ => ?_
  refine (parameters_approximates hI hle).bind fun names => ?_
  refine (approximates_expect hI _).bind fun _ => ?_
  exact (block_approximates hI he hle).bind fun _ => approximates_pure _

/-- Both sides have a rule for a kind, or neither has one. -/
theorem prefixRule_approximates (kind : TokenKind) :
    prefixRule expr fuel kind = none ∧ prefixRule expr' fuel' kind = none ∨
      ∃ rule rule', prefixRule expr fuel kind = some rule ∧
        prefixRule expr' fuel' kind = some rule' ∧ Approximates I rule rule' := by
  cases kind
  case identifier => exact .inr ⟨_, _, rfl, rfl, identifier_approximates⟩
  case int => exact .inr ⟨_, _, rfl, rfl, integer_approximates hI⟩
  case trueKeyword => exact .inr ⟨_, _, rfl, rfl, boolean_approximates⟩
  case falseKeyword => exact .inr ⟨_, _, rfl, rfl, boolean_approximates⟩
  case string => exact .inr ⟨_, _, rfl, rfl, string_approximates⟩
  case bang => exact .inr ⟨_, _, rfl, rfl, unary_approximates hI he⟩
  case minus => exact .inr ⟨_, _, rfl, rfl, unary_approximates hI he⟩
  case leftParen => exact .inr ⟨_, _, rfl, rfl, grouped_approximates hI he⟩
  case leftBracket => exact .inr ⟨_, _, rfl, rfl, array_approximates hI he hle⟩
  case ifKeyword => exact .inr ⟨_, _, rfl, rfl, conditional_approximates hI he hle⟩
  case functionKeyword => exact .inr ⟨_, _, rfl, rfl, function_approximates hI he hle⟩
  all_goals exact .inl ⟨rfl, rfl⟩

theorem infixRule_approximates (kind : TokenKind) :
    infixRule expr fuel kind = none ∧ infixRule expr' fuel' kind = none ∨
      ∃ rule rule', infixRule expr fuel kind = some rule ∧
        infixRule expr' fuel' kind = some rule' ∧
        ∀ left, Approximates I (rule left) (rule' left) := by
  cases kind
  case leftParen => exact .inr ⟨_, _, rfl, rfl, call_approximates hI he hle⟩
  all_goals first
    | exact .inl ⟨rfl, rfl⟩
    | exact .inr ⟨_, _, rfl, rfl, binary_approximates hI he⟩

theorem operatorsRound_approximates (floor : Nat) (left : Node) :
    Approximates I (operatorsRound expr fuel floor left)
      (operatorsRound expr' fuel' floor left) := by
  refine approximates_peek.bind fun t => ?_
  split
  · rcases infixRule_approximates hI he hle t.kind with ⟨hnone, hnone'⟩ | ⟨_, _, hr, hr', hrule⟩
    · rw [hnone, hnone']
      exact approximates_pure _
    · rw [hr, hr']
      exact (approximates_advance hI).bind fun _ => (hrule left).bind fun _ => approximates_pure _
  · exact approximates_pure _

/-- Readers of the expressions inside that approximate each other make such readers of expressions.
-/
theorem expressionBody_approximates (floor : Nat) :
    Approximates I (expressionBody expr fuel floor) (expressionBody expr' fuel' floor) := by
  refine approximates_current.bind fun t => ?_
  rcases prefixRule_approximates hI he hle t.kind with ⟨hnone, hnone'⟩ | ⟨_, _, hr, hr', hrule⟩
  · rw [hnone, hnone']
    exact approximates_reject hI _
  · rw [hr, hr']
    exact hrule.bind (Approximates.rounds (operatorsRound_approximates hI he hle floor) hle)

end Rules

/-- **Expressions** are read in the same way with more fuel. -/
theorem expression_approximates {N N' : Nat} (h : N ≤ N') (floor : Nat) :
    Approximates I (expression (σ := σ) N floor) (expression N' floor) := by
  -- The readers of the expressions inside have less fuel on both sides.
  induction N generalizing N' floor with
  | zero => exact approximates_outOfFuel _
  | succ N ih =>
    obtain ⟨N', rfl⟩ := Nat.exists_eq_add_of_le' (Nat.lt_of_lt_of_le (Nat.succ_pos _) h)
    rw [expression_succ, expression_succ]
    exact expressionBody_approximates hI (ih (Nat.le_of_succ_le_succ h)) h floor

end Parse

end MonkeySyntax
