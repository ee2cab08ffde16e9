import MonkeySyntax.Proofs.Halting

/-!
# Where diagnostics are made

A diagnostic is about one of the two tokens in view, and a rule takes them in turn. It may report
the current token as long as nothing has been said about the next one: no expression begins with it,
or its number is out of range. From then on only the next token may be reported, as one that should
have been of another kind, until the parser moves on. So two properties of parsers are enough to
follow what is reported (`Parser.Watch`): one that holds where the current token may still be
reported, the other where only the next one may. They are handed on from action to action
(`Parse.Leads`).

A rejected statement is left behind in one of two ways. Skipping moves on, and so does the loop that
begins the next statement; or skipping has come to the brace that ends the block, the loop does not
move, and no other statement begins. In either case nothing is said about a token after something
has been said about a later one.
-/

namespace MonkeySyntax

namespace Parser

variable {σ : Type} [TokenStream σ]

/-- The property `fresh` holds where the current token may be reported, and `settled` where only the
next one may. A move leads from the second to the first, and each of the three diagnostics is made
for a reason. -/
structure Watch (fresh settled : Parser σ → Prop) : Prop where
  settle : ∀ p, fresh p → settled p
  advance : ∀ p, settled p → fresh p.advance
  expected : ∀ p kind, settled p → p.peek.kind ≠ kind → settled (p.report (.expected kind p.peek))
  noExpression : ∀ p, fresh p →
    (∀ (expr : Nat → Parse σ Node) fuel, Parse.prefixRule expr fuel p.current.kind = none) →
    settled (p.report (.noExpression p.current))
  badInteger : ∀ p, fresh p → p.current.kind = .int → Numeral.value? p.current.literal = none →
    settled (p.report (.badInteger p.current))
  drop : ∀ p, settled p → settled p.drop
  closeBlock : ∀ p, settled p → settled p.closeBlock

end Parser

namespace Parse

open MonkeySyntax.Parser

variable {σ α β : Type} {I J fresh settled : Parser σ → Prop}

/-- From parsers with the first property the action leads to parsers with the second, whether it is
done or has rejected the text. -/
def Leads (I J : Parser σ → Prop) (m : Parse σ α) : Prop :=
  ∀ p, I p → (m.run p).Meets True (fun _ q => J q) J

/-! ### Sequences and loops -/

theorem Leads.bind {m : Parse σ α} {f : α → Parse σ β} (hm : Leads I J m)
    (hf : ∀ a, Leads J J (f a)) : Leads I J (m >>= f) := by
  intro p hp
  rw [meets_bind]
  exact (hm p hp).mono (fun a q hq => hf a q hq) fun _ hq => hq

theorem leads_pure (a : α) : Leads J J (pure a : Parse σ α) := fun _ hp => hp

theorem leads_current : Leads J J (current : Parse σ Token) := fun _ hp => hp

theorem leads_peek : Leads J J (peek : Parse σ Token) := fun _ hp => hp

theorem leads_onClosed : Leads J J (onClosed : Parse σ Bool) := fun _ hp => hp

/-- Looking at the current token says nothing about the next one. -/
theorem Leads.current {f : Token → Parse σ β} (hf : ∀ t, Leads I J (f t)) :
    Leads I J (current >>= f) := fun p hp => hf p.current p hp

theorem Leads.rounds {round : α → Parse σ (Round α β)} (h : ∀ a, Leads J J (round a)) (bound : Nat)
    (a : α) : Leads J J (rounds round bound a) := by
  induction bound generalizing a with
  | zero => exact fun _ _ => trivial
  | succ bound ih =>
    refine (h a).bind fun o => ?_
    cases o with
    | next a => exact ih a
    | stop b => exact leads_pure b

variable [TokenStream σ]

/-- Whether a kind has a rule depends on nothing else. -/
theorem prefixRule_eq_none {expr expr' : Nat → Parse σ Node} {fuel fuel' : Nat} {kind : TokenKind}
    (h : prefixRule expr fuel kind = none) : prefixRule expr' fuel' kind = none := by
  cases kind <;> first | rfl | cases h

variable (W : Watch fresh settled)

include W

theorem Leads.of_settled {m : Parse σ α} (h : Leads settled settled m) : Leads fresh settled m :=
  fun p hp => h p (W.settle p hp)

/-- What comes behind a move may begin by reporting the current token. -/
theorem Leads.advance {f : Unit → Parse σ β} (hf : Leads fresh settled (f ())) :
    Leads settled settled (advance >>= f) := fun p hp => hf p.advance (W.advance p hp)

theorem leads_advance : Leads settled settled (advance : Parse σ Unit) := fun p hp =>
  W.settle _ (W.advance p hp)

theorem leads_expect (kind : TokenKind) : Leads settled settled (expect kind : Parse σ Unit) :=
  fun p hp => meets_expect (fun _ => W.settle _ (W.advance p hp)) (W.expected p kind hp)

theorem leads_closeBlock : Leads settled settled (closeBlock : Parse σ Unit) := W.closeBlock

/-! ### Names, literals and recovery -/

omit W [TokenStream σ] in
theorem identifier_leads : Leads J J (identifier : Parse σ Node) :=
  .current fun _ => leads_pure _

omit W [TokenStream σ] in
theorem boolean_leads : Leads J J (boolean : Parse σ Node) :=
  .current fun _ => leads_pure _

omit W [TokenStream σ] in
theorem string_leads : Leads J J (string : Parse σ Node) :=
  .current fun _ => leads_pure _

/-- A number is read where there is one; it may be reported itself. -/
theorem integer_leads {p : Parser σ} (hp : fresh p) (hk : p.current.kind = .int) :
    (integer.run p).Meets True (fun _ q => settled q) settled := by
  rw [integer, meets_bind, meets_current]
  split
  · exact W.settle p hp
  · next hnone => exact W.badInteger p hp hk hnone

theorem optionalSemicolon_leads : Leads settled settled (optionalSemicolon : Parse σ Unit) := by
  refine leads_peek.bind fun t => ?_
  split
  · exact leads_advance W
  · exact leads_pure _

/-- Skipping reports nothing. -/
theorem synchronize_leads (bound : Nat) :
    Leads settled settled (synchronize bound : Parse σ Bool) := by
  have hmove (k : Nat) : Leads settled settled
      (Parse.advance >>= fun _ => pure (.next k) : Parse σ (Round Nat Bool)) :=
    (leads_advance W).bind fun _ => leads_pure _
  refine .rounds (fun depth => ?_) bound 0
  refine leads_current.bind fun t => leads_peek.bind fun u => leads_onClosed.bind fun own => ?_
  split
  · exact leads_pure _
  split
  · exact hmove _
  split
  · split
    · exact leads_pure _
    · exact leads_pure _
    · exact hmove _
  split
  · exact leads_pure _
  · exact hmove _

/-! ### The rules of the grammar -/

theorem parameters_leads (fuel : Nat) :
    Leads settled settled (parameters fuel : Parse σ (List Node)) := by
  have hround (names : List Node) : Leads settled settled (parametersRound (σ := σ) names) := by
    refine leads_peek.bind fun t => ?_
    split
    · exact (leads_advance W).bind fun _ => (leads_expect W _).bind fun _ =>
        identifier_leads.bind fun _ => leads_pure _
    · exact leads_pure _
  refine leads_peek.bind fun t => ?_
  split
  · exact (leads_advance W).bind fun _ => leads_pure _
  · refine (leads_expect W _).bind fun _ => identifier_leads.bind fun name => ?_
    refine (Leads.rounds hround fuel [name]).bind fun names => ?_
    exact (leads_expect W _).bind fun _ => leads_pure _

section Rules

variable {expr : Nat → Parse σ Node} (he : ∀ floor, Leads fresh settled (expr floor))

include he

theorem unary_leads : Leads settled settled (unary expr) :=
  leads_current.bind fun _ => .advance W ((he _).bind fun _ => leads_pure _)

theorem binary_leads (left : Node) : Leads settled settled (binary expr left) :=
  leads_current.bind fun _ => .advance W ((he _).bind fun _ => leads_pure _)

theorem grouped_leads : Leads settled settled (grouped expr) :=
  .advance W ((he _).bind fun _ => (leads_expect W _).bind fun _ => leads_pure _)

theorem letStatement_leads : Leads settled settled (letStatement expr) := by
  refine leads_current.bind fun t => (leads_expect W _).bind fun _ => ?_
  refine identifier_leads.bind fun name => (leads_expect W _).bind fun _ => ?_
  refine .advance W ((he _).bind fun value => ?_)
  exact (optionalSemicolon_leads W).bind fun _ => leads_pure _

theorem returnStatement_leads : Leads settled settled (returnStatement expr) := by
  refine leads_current.bind fun t => .advance W ((he _).bind fun value => ?_)
  exact (optionalSemicolon_leads W).bind fun _ => leads_pure _

theorem expressionStatement_leads : Leads fresh settled (expressionStatement expr) :=
  .current fun _ => (he _).bind fun _ => (optionalSemicolon_leads W).bind fun _ => leads_pure _

theorem statement_leads : Leads fresh settled (statement expr) := by
  refine .current fun t => ?_
  split
  · exact .of_settled W (letStatement_leads W he)
  · exact .of_settled W (returnStatement_leads W he)
  · exact expressionStatement_leads W he

theorem expressionList_leads (fuel : Nat) (closing : TokenKind) :
    Leads settled settled (expressionList expr fuel closing) := by
  have hround (items : List Node) : Leads settled settled (expressionsRound expr items) := by
    refine leads_peek.bind fun t => ?_
    split
    · exact (leads_advance W).bind fun _ => .advance W ((he _).bind fun _ => leads_pure _)
    · exact leads_pure _
  refine leads_peek.bind fun t => ?_
  split
  · exact (leads_advance W).bind fun _ => leads_pure _
  · refine .advance W ((he _).bind fun item => ?_)
    refine (Leads.rounds hround fuel [item]).bind fun items => ?_
    exact (leads_expect W _).bind fun _ => leads_pure _

theorem array_leads (fuel : Nat) : Leads settled settled (array expr fuel) :=
  leads_current.bind fun _ => (expressionList_leads W he fuel _).bind fun _ => leads_pure _

theorem call_leads (fuel : Nat) (callee : Node) : Leads settled settled (call expr fuel callee) :=
  leads_current.bind fun _ => (expressionList_leads W he fuel _).bind fun _ => leads_pure _

/-- **Statements.** A round begins where the current token may be reported, or on a token that ends
the sequence. -/
theorem statements_leads (fuel : Nat) (ends : TokenKind → Bool) :
    Leads fresh settled (statements expr fuel ends) := by
  intro p hp
  -- The loop does not keep either property: it may go on without a move, but only to its end.
  refine meets_rounds (fun _ q => fresh q ∨ settled q ∧ ends q.current.kind = true) (fun _ => 0)
    (fun before q hq => ?_) (.inl hp) (.inl trivial)
  rw [statementsRound, meets_bind, meets_current]
  split
  · exact hq.elim (W.settle q) fun h => h.1
  next hends =>
  have hq : fresh q := hq.resolve_right fun h => hends h.2
  have hmove {r : Parser σ} (hr : settled r) :
      (fresh r.advance ∨ settled r.advance ∧ ends r.advance.current.kind = true) ∧
        (True ∨ 0 < 0) :=
    ⟨.inl (W.advance r hr), .inl trivial⟩
  rw [meets_bind, meets_attempt]
  refine (statement_leads W he q hq).mono (fun this r hr => hmove hr) fun r hr => ?_
  rw [meets_bind]
  have hskip := synchronize_leads W fuel r.drop (W.drop r hr)
  refine (hskip.and (synchronize_onBrace fuel r.drop)).mono (fun onOuterBrace r' hr' => ?_)
    fun _ hr' => hr'.1
  obtain ⟨hsettled, hbrace⟩ := hr'
  split
  · next houter =>
    -- No statement begins on this brace.
    have hend : ends r'.current.kind = true := by
      rw [hbrace houter.1]
      exact houter.2
    exact ⟨.inr ⟨hsettled, hend⟩, .inl trivial⟩
  · exact hmove hsettled

theorem block_leads (fuel : Nat) : Leads settled settled (block expr fuel) := by
  refine leads_current.bind fun t => .advance W ((statements_leads W he fuel _).bind fun body => ?_)
  exact (leads_closeBlock W).bind fun _ => leads_pure _

theorem conditional_leads (fuel : Nat) : Leads settled settled (conditional expr fuel) := by
  have halternative : Leads settled settled (alternative expr fuel) := by
    refine leads_peek.bind fun t => ?_
    split
    · exact (leads_advance W).bind fun _ => (leads_expect W _).bind fun _ =>
        (block_leads W he fuel).bind fun _ => leads_pure _
    · exact leads_pure _
  refine leads_current.bind fun t => (leads_expect W _).bind fun _ => .advance W ?_
  refine (he _).bind fun condition => (leads_expect W _).bind fun _ => ?_
  refine (leads_expect W _).bind fun _ => (block_leads W he fuel).bind fun consequence => ?_
  exact halternative.bind fun _ => leads_pure _

theorem function_leads (fuel : Nat) : Leads settled settled (function expr fuel) := by
  refine leads_current.bind fun t => (leads_expect W _).bind fun _ => ?_
  refine (parameters_leads W fuel).bind fun names => (leads_expect W _).bind fun _ => ?_
  exact (block_leads W he fuel).bind fun _ => leads_pure _

/-- The rule for a kind begins on a token of this kind. -/
theorem prefixRule_leads {fuel : Nat} {kind : TokenKind} {rule : Parse σ Node}
    (h : prefixRule expr fuel kind = some rule) {p : Parser σ} (hp : fresh p)
    (hk : p.current.kind = kind) : (rule.run p).Meets True (fun _ q => settled q) settled := by
  have hsettled := W.settle p hp
  cases kind <;> cases h
  case identifier => exact identifier_leads p hsettled
  case int => exact integer_leads W hp hk
  case trueKeyword => exact boolean_leads p hsettled
  case falseKeyword => exact boolean_leads p hsettled
  case string => exact string_leads p hsettled
  case bang => exact unary_leads W he p hsettled
  case minus => exact unary_leads W he p hsettled
  case leftParen => exact grouped_leads W he p hsettled
  case leftBracket => exact array_leads W he fuel p hsettled
  case ifKeyword => exact conditional_leads W he fuel p hsettled
  case functionKeyword => exact function_leads W he fuel p hsettled

theorem infixRule_leads {fuel : Nat} {kind : TokenKind} {rule : Node → Parse σ Node}
    (h : infixRule expr fuel kind = some rule) (left : Node) :
    Leads settled settled (rule left) := by
  cases kind <;> cases h
  case leftParen => exact call_leads W he fuel left
  all_goals exact binary_leads W he left

theorem operatorsRound_leads (fuel floor : Nat) (left : Node) :
    Leads settled settled (operatorsRound expr fuel floor left) := by
  refine leads_peek.bind fun t => ?_
  split
  · split
    · exact leads_pure _
    · next rule hrule =>
      exact (leads_advance W).bind fun _ => (infixRule_leads W he hrule left).bind fun _ =>
        leads_pure _
  · exact leads_pure _

theorem expressionBody_leads (fuel floor : Nat) :
    Leads fresh settled (expressionBody expr fuel floor) := by
  intro p hp
  rw [expressionBody, meets_bind, meets_current]
  split
  -- This is the one place where the current token is reported, whatever it is.
  · next hnone => exact W.noExpression p hp fun _ _ => prefixRule_eq_none hnone
  · next rule hrule =>
    rw [meets_bind]
    refine (prefixRule_leads W he hrule hp rfl).mono (fun left q hq => ?_) fun _ hq => hq
    exact Leads.rounds (operatorsRound_leads W he fuel floor) fuel left q hq

end Rules

/-- **Expressions** report the tokens in turn. -/
theorem expression_leads (N floor : Nat) : Leads fresh settled (expression (σ := σ) N floor) := by
  induction N generalizing floor with
  | zero => exact fun _ _ => trivial
  | succ N ih => exact expressionBody_leads W ih (N + 1) floor

end Parse

end MonkeySyntax
