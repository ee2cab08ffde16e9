import MonkeySyntax.Proofs.Agree
import MonkeySyntax.Proofs.Built

/-!
# Two actions of one make

The rules of the grammar ask of a token only what kind it is and what its literal says, and never
where it stands. So a rule does the same thing to two parsers as long as these see tokens that look
alike, and the trees it builds differ in places only. `Parse.Parallel` says that two actions are put
together from primitive ones in the same way, where every value that one hands on looks like the
value that the other does.

This module holds the one tour of the grammar that establishes it, rule by rule; it ends with
`Parse.expression_parallel` and `Parse.statements_parallel`. An action is parallel to itself, and so
the tour also shows that all rules are built from primitive actions (`Parse.expression_built`,
`Parse.statements_built`). Whatever holds of rules for reasons that lie in the primitive actions is
derived from these theorems, with no look at the grammar.
-/

namespace MonkeySyntax

/-- The token as if it stood nowhere. -/
def Token.unplaced (t : Token) : Token :=
  ⟨t.kind, t.literal, 0, 0⟩

theorem Token.LooksLike.unplaced_eq {s t : Token} (h : s.LooksLike t) :
    s.unplaced = t.unplaced := by
  rw [unplaced, unplaced, h.1, h.2]

namespace Node

/-- Two trees look alike when they differ at most in the places of their tokens. -/
def LooksLike (m n : Node) : Prop :=
  m.mapTokens Token.unplaced = n.mapTokens Token.unplaced

/-- Equally many trees, each of which looks like the one at its place. -/
def EachLooksLike (ms ns : List Node) : Prop :=
  mapTokensEach Token.unplaced ms = mapTokensEach Token.unplaced ns

theorem LooksLike.refl (n : Node) : n.LooksLike n := rfl

theorem LooksLike.eq {m n : Node} (h : m.LooksLike n) :
    m.mapTokens Token.unplaced = n.mapTokens Token.unplaced := h

theorem EachLooksLike.refl (ns : List Node) : EachLooksLike ns ns := rfl

theorem EachLooksLike.eq {ms ns : List Node} (h : EachLooksLike ms ns) :
    mapTokensEach Token.unplaced ms = mapTokensEach Token.unplaced ns := h

theorem EachLooksLike.concat {ms ns : List Node} {m n : Node} (h : EachLooksLike ms ns)
    (hn : m.LooksLike n) : EachLooksLike (ms ++ [m]) (ns ++ [n]) := by
  rw [EachLooksLike, mapTokensEach_append, mapTokensEach_append, h]
  exact congrArg (fun x => _ ++ [x]) hn

theorem EachLooksLike.singleton {m n : Node} (h : m.LooksLike n) : EachLooksLike [m] [n] :=
  congrArg (fun x => [x]) h

/-- Trees that may be missing look alike when both are missing, or neither is. -/
def OptionLooksLike : Option Node → Option Node → Prop
  | none, none => True
  | some m, some n => m.LooksLike n
  | _, _ => False

theorem OptionLooksLike.refl (o : Option Node) : OptionLooksLike o o := by
  cases o with
  | none => trivial
  | some n => exact LooksLike.refl n

end Node

namespace Parse

variable {σ τ : Type} [TokenStream σ] [TokenStream τ]

/-- The two actions are put together in the same way, and the values that they hand on are in the
given relation. Either one may run out of fuel before the other does. -/
inductive Parallel : (braced : Bool) → Stage → Stage → {α : Type} → (α → α → Prop) →
    Parse σ α → Parse τ α → Prop where
  | pure {i : Bool} {b : Stage} {α : Type} {R : α → α → Prop} {a a' : α} : R a a' →
      Parallel i b b R (pure a) (pure a')
  | bind {i : Bool} {b c d : Stage} {α β : Type} {R : α → α → Prop} {S : β → β → Prop}
      {m : Parse σ α} {m' : Parse τ α} {f : α → Parse σ β} {f' : α → Parse τ β} :
      (∀ a, R a a) → Parallel i b c R m m' →
      (∀ a a', R a a' → Parallel i c d S (f a) (f' a')) → Parallel i b d S (m >>= f) (m' >>= f')
  | current {i : Bool} {b : Stage} : Parallel i b b Token.LooksLike current current
  | peek {i : Bool} {b : Stage} : Parallel i b b.look Token.LooksLike peek peek
  | onClosed {i : Bool} : Parallel i .reported .reported Eq onClosed onClosed
  | advance {i : Bool} {b : Stage} : Parallel i b b.move Eq advance advance
  | closeBlock {i : Bool} {b : Stage} : Parallel i b b Eq closeBlock closeBlock
  | expect {i : Bool} {b : Stage} (kind : TokenKind) :
      Parallel i b b.move Eq (expect kind) (expect kind)
  | judge {i : Bool} {c : Stage} {α : Type} {S : α → α → Prop} {f : Token → Parse σ α}
      {f' : Token → Parse τ α} (passes : Token → Prop) :
      (∀ t t', t.LooksLike t' → passes t → Parallel i .fresh c S (f t) (f' t')) →
      (∀ t t', t.LooksLike t' → ¬ passes t →
        ∃ d : Diagnostic, f t = reject (d.about t) ∧ f' t' = reject (d.about t')) →
      Parallel i .fresh c S (current >>= f) (current >>= f')
  | attempt {b c d : Stage} {α β : Type} {R : α → α → Prop} {S : β → β → Prop} {m : Parse σ α}
      {m' : Parse τ α} {f : Option α → Parse σ β} {f' : Option α → Parse τ β} : (∀ a, R a a) →
      Parallel true b c R m m' →
      (∀ a a', R a a' → Parallel true c d S (f (some a)) (f' (some a'))) →
      Parallel true .reported d S (f none) (f' none) →
      Parallel true b d S (attempt m >>= f) (attempt m' >>= f')
  | braces {i : Bool} {b c d : Stage} {α β : Type} {R : α → α → Prop} {S : β → β → Prop}
      {f : Token → Parse σ α} {f' : Token → Parse τ α} {g : α → Parse σ β} {g' : α → Parse τ β} :
      (∀ a, R a a) → (∀ t t', t.LooksLike t' → Parallel true .fresh c R (f t) (f' t')) →
      (∀ a a', R a a' → Parallel true c d S (g a) (g' a')) →
      Parallel i b d S
        (Parse.expect .leftBrace >>= fun _ =>
          (Parse.current >>= fun t => Parse.advance >>= fun _ => f t) >>= g)
        (Parse.expect .leftBrace >>= fun _ =>
          (Parse.current >>= fun t => Parse.advance >>= fun _ => f' t) >>= g')
  | outOfFuel {i : Bool} {b c : Stage} {α : Type} {R : α → α → Prop} {m' : Parse τ α} :
      Built i b c m' → Parallel i b c R outOfFuel m'
  | outOfFuel_right {i : Bool} {b c : Stage} {α : Type} {R : α → α → Prop} {m : Parse σ α} :
      Built i b c m → Parallel i b c R m outOfFuel
  | settle {i : Bool} {b : Stage} {α : Type} {R : α → α → Prop} {m : Parse σ α} {m' : Parse τ α} :
      Parallel i b .fresh R m m' → Parallel i b .settled R m m'
  | forget {i : Bool} {b c : Stage} {α : Type} {R : α → α → Prop} {m : Parse σ α}
      {m' : Parse τ α} : Parallel i b .reported R m m' → Parallel i b c R m m'

section Sides

variable {i : Bool} {b c : Stage} {α : Type} {R : α → α → Prop} {m : Parse σ α} {m' : Parse τ α}

theorem Parallel.built_left (h : Parallel i b c R m m') : Built i b c m := by
  induction h with
  | pure _ => exact .pure _
  | bind hR _ _ ihm ihf => exact .bind ihm fun a => ihf a a (hR a)
  | current => exact .current
  | peek => exact .peek
  | onClosed => exact .onClosed
  | advance => exact .advance
  | closeBlock => exact .closeBlock
  | expect kind => exact .expect kind
  | judge passes _ hfails ih =>
    refine .judge passes (fun t ht => ih t t (.refl t) ht) fun t ht => ?_
    obtain ⟨d, hd, -⟩ := hfails t t (.refl t) ht
    exact ⟨d, hd⟩
  | attempt hR _ _ _ ihm ihsome ihnone =>
    exact .attempt ihm (fun a => ihsome a a (hR a)) ihnone
  | braces hR _ _ ihf ihg => exact .braces (fun t => ihf t t (.refl t)) fun a => ihg a a (hR a)
  | outOfFuel _ => exact .outOfFuel
  | outOfFuel_right h => exact h
  | settle _ ih => exact .settle ih
  | forget _ ih => exact .forget ih

theorem Parallel.built_right (h : Parallel i b c R m m') : Built i b c m' := by
  induction h with
  | pure _ => exact .pure _
  | bind hR _ _ ihm ihf => exact .bind ihm fun a => ihf a a (hR a)
  | current => exact .current
  | peek => exact .peek
  | onClosed => exact .onClosed
  | advance => exact .advance
  | closeBlock => exact .closeBlock
  | expect kind => exact .expect kind
  | judge passes _ hfails ih =>
    refine .judge passes (fun t ht => ih t t (.refl t) ht) fun t ht => ?_
    obtain ⟨d, -, hd⟩ := hfails t t (.refl t) ht
    exact ⟨d, hd⟩
  | attempt hR _ _ _ ihm ihsome ihnone =>
    exact .attempt ihm (fun a => ihsome a a (hR a)) ihnone
  | braces hR _ _ ihf ihg => exact .braces (fun t => ihf t t (.refl t)) fun a => ihg a a (hR a)
  | outOfFuel h => exact h
  | outOfFuel_right _ => exact .outOfFuel
  | settle _ ih => exact .settle ih
  | forget _ ih => exact .forget ih

end Sides

/-! ### Sequences

What an action hands on to the next one is a token, a tree or a list of trees; or it is nothing. -/

section Sequences

variable {i : Bool} {b c d : Stage} {α β : Type} {S : β → β → Prop}

theorem Parallel.next {m : Parse σ Unit} {m' : Parse τ Unit} {f : Unit → Parse σ β}
    {f' : Unit → Parse τ β} (h : Parallel i b c Eq m m') (hf : Parallel i c d S (f ()) (f' ())) :
    Parallel i b d S (m >>= f) (m' >>= f') :=
  .bind (fun _ => rfl) h fun _ _ _ => hf

theorem Parallel.token {m : Parse σ Token} {m' : Parse τ Token} {f : Token → Parse σ β}
    {f' : Token → Parse τ β} (h : Parallel i b c Token.LooksLike m m')
    (hf : ∀ t t', t.LooksLike t' → Parallel i c d S (f t) (f' t')) :
    Parallel i b d S (m >>= f) (m' >>= f') :=
  .bind Token.LooksLike.refl h hf

theorem Parallel.node {m : Parse σ Node} {m' : Parse τ Node} {f : Node → Parse σ β}
    {f' : Node → Parse τ β} (h : Parallel i b c Node.LooksLike m m')
    (hf : ∀ n n', n.LooksLike n' → Parallel i c d S (f n) (f' n')) :
    Parallel i b d S (m >>= f) (m' >>= f') :=
  .bind Node.LooksLike.refl h hf

theorem Parallel.nodes {m : Parse σ (List Node)} {m' : Parse τ (List Node)}
    {f : List Node → Parse σ β} {f' : List Node → Parse τ β}
    (h : Parallel i b c Node.EachLooksLike m m')
    (hf : ∀ ns ns', Node.EachLooksLike ns ns' → Parallel i c d S (f ns) (f' ns')) :
    Parallel i b d S (m >>= f) (m' >>= f') :=
  .bind Node.EachLooksLike.refl h hf

end Sequences

/-! ### Loops -/

theorem Round.Agrees.refl {α β : Type} {N : α → α → Prop} {S : β → β → Prop} (hN : ∀ a, N a a)
    (hS : ∀ b, S b b) (x : Round α β) : Round.Agrees N S x x := by
  cases x with
  | next a => exact hN a
  | stop b => exact hS b

/-- Two loops go through their rounds side by side, as long as both go on. -/
theorem Parallel.rounds {i : Bool} {b : Stage} {α β : Type} {N : α → α → Prop} {S : β → β → Prop}
    {round : α → Parse σ (Round α β)} {round' : α → Parse τ (Round α β)} (hN : ∀ a, N a a)
    (hS : ∀ x, S x x)
    (h : ∀ a a', N a a' → Parallel i b b (Round.Agrees N S) (round a) (round' a'))
    (bound bound' : Nat) {a a' : α} (ha : N a a') :
    Parallel i b b S (Parse.rounds round bound a) (Parse.rounds round' bound' a') := by
  induction bound generalizing bound' a a' with
  -- One of the loops may have no round left while the other goes on.
  | zero => exact .outOfFuel (.rounds (fun a => (h a a (hN a)).built_right) bound' a')
  | succ bound ih =>
    cases bound' with
    | zero => exact .outOfFuel_right (.rounds (fun a => (h a a (hN a)).built_left) (bound + 1) a)
    | succ bound' =>
      refine .bind (Round.Agrees.refl hN hS) (h a a' ha) fun x x' hx => ?_
      cases x with
      | next a =>
        cases x' with
        | next a' => exact ih bound' hx
        | stop y' => exact hx.elim
      | stop y =>
        cases x' with
        | next a' => exact hx.elim
        | stop y' => exact .pure hx

/-! ### Names, literals and recovery -/

theorem identifier_parallel {i : Bool} {b : Stage} :
    Parallel i b b Node.LooksLike (identifier (σ := σ)) (identifier (σ := τ)) := by
  refine .token .current fun t t' ht => .pure ?_
  simp only [Node.LooksLike, Node.mapTokens, ht.unplaced_eq, ht.2]

theorem boolean_parallel {i : Bool} {b : Stage} :
    Parallel i b b Node.LooksLike (boolean (σ := σ)) (boolean (σ := τ)) := by
  refine .token .current fun t t' ht => .pure ?_
  simp only [Node.LooksLike, Node.mapTokens, ht.unplaced_eq, ht.1]

theorem string_parallel {i : Bool} {b : Stage} :
    Parallel i b b Node.LooksLike (string (σ := σ)) (string (σ := τ)) := by
  refine .token .current fun t t' ht => .pure ?_
  simp only [Node.LooksLike, Node.mapTokens, ht.unplaced_eq, ht.2]

theorem integer_parallel {i : Bool} :
    Parallel i .fresh .fresh Node.LooksLike (integer (σ := σ)) (integer (σ := τ)) := by
  -- The verdict depends on nothing but the literal.
  refine .judge (fun t => (Numeral.value? t.literal).isSome) (fun t t' ht hsome => ?_)
    fun t t' ht hnone => ?_
  · obtain ⟨n, hn⟩ := Option.isSome_iff_exists.1 hsome
    rw [← ht.2, hn]
    refine .pure ?_
    simp only [Node.LooksLike, Node.mapTokens, ht.unplaced_eq]
  · have hnone : Numeral.value? t.literal = none := by simpa using hnone
    rw [← ht.2, hnone]
    exact ⟨.badInteger t, rfl, rfl⟩

theorem optionalSemicolon_parallel {i : Bool} :
    Parallel i .settled .settled Eq (optionalSemicolon (σ := σ)) (optionalSemicolon (σ := τ)) := by
  refine .token .peek fun t t' ht => ?_
  rw [ht.1]
  split
  · exact .settle .advance
  · exact .pure rfl

/-- Skipping reports nothing, so it does not matter what it has looked at. -/
theorem synchronize_parallel {i : Bool} (bound bound' : Nat) : Parallel i .reported .reported Eq
    (synchronize (σ := σ) bound) (synchronize (σ := τ) bound') := by
  refine .rounds (N := Eq) (fun _ => rfl) (fun _ => rfl) (fun depth _ hdepth => ?_) _ _ rfl
  subst hdepth
  refine .token .current fun t t' ht => .token .peek fun u u' hu =>
    .bind (fun _ => rfl) .onClosed fun own own' hown => ?_
  subst hown
  rw [ht.1, hu.1]
  have hmove (k : Nat) : Parallel i .reported .reported (Round.Agrees (β := Bool) Eq Eq)
      (advance (σ := σ) >>= fun _ => pure (.next k))
      (advance (σ := τ) >>= fun _ => pure (.next k)) :=
    .next .advance <| .pure rfl
  split
  · exact .pure rfl
  split
  · exact hmove _
  split
  · split
    · exact .pure rfl
    · exact .pure rfl
    · exact hmove _
  split
  · exact .pure rfl
  · exact hmove _

/-! ### The rules of the grammar -/

section Rules

variable {expr : Nat → Parse σ Node} {expr' : Nat → Parse τ Node}
  (he : ∀ (i : Bool) floor, Parallel i .fresh .settled Node.LooksLike (expr floor) (expr' floor))
  {i : Bool}

include he

theorem unary_parallel : Parallel i .fresh .settled Node.LooksLike (unary expr) (unary expr') := by
  refine .token .current fun t t' ht => .next .advance <| .node (he i _) fun n n' hn => .pure ?_
  simp only [Node.LooksLike, Node.mapTokens, ht.unplaced_eq, ht.2, hn.eq]

theorem binary_parallel {left left' : Node} (hleft : left.LooksLike left') :
    Parallel i .fresh .settled Node.LooksLike (binary expr left) (binary expr' left') := by
  refine .token .current fun t t' ht => .next .advance <| ?_
  -- Operators of one kind have one level, and it is the floor for the right operand.
  rw [ht.1]
  refine .node (he i _) fun n n' hn => .pure ?_
  simp only [Node.LooksLike, Node.mapTokens, ht.unplaced_eq, ht.2, hleft.eq, hn.eq]

theorem grouped_parallel :
    Parallel i .fresh .settled Node.LooksLike (grouped expr) (grouped expr') :=
  .settle (.next .advance <| .node (he i _) fun _ _ hn => .next (.expect _) <| .pure hn)

theorem letStatement_parallel :
    Parallel i .fresh .settled Node.LooksLike (letStatement expr) (letStatement expr') := by
  refine .token .current fun t t' ht => .next (.expect _) <|
    .node identifier_parallel fun m m' hm => .next (.expect _) <| .next .advance <|
    .node (he i _) fun n n' hn => .next optionalSemicolon_parallel <| .pure ?_
  simp only [Node.LooksLike, Node.mapTokens, ht.unplaced_eq, hm.eq, hn.eq]

theorem returnStatement_parallel :
    Parallel i .fresh .settled Node.LooksLike (returnStatement expr) (returnStatement expr') := by
  refine .token .current fun t t' ht => .next .advance <|
    .node (he i _) fun n n' hn => .next optionalSemicolon_parallel <| .pure ?_
  simp only [Node.LooksLike, Node.mapTokens, ht.unplaced_eq, hn.eq]

theorem expressionStatement_parallel :
    Parallel i .fresh .settled Node.LooksLike (expressionStatement expr)
      (expressionStatement expr') := by
  refine .token .current fun t t' ht => .node (he i _) fun n n' hn =>
    .next optionalSemicolon_parallel <| .pure ?_
  simp only [Node.LooksLike, Node.mapTokens, ht.unplaced_eq, hn.eq]

theorem statement_parallel :
    Parallel i .fresh .settled Node.LooksLike (statement expr) (statement expr') := by
  refine .token .current fun t t' ht => ?_
  rw [ht.1]
  split
  · exact letStatement_parallel he
  · exact returnStatement_parallel he
  · exact expressionStatement_parallel he

variable (fuel fuel' : Nat)

/-! #### Lists -/

theorem expressionList_parallel (closing : TokenKind) :
    Parallel i .fresh .fresh Node.EachLooksLike (expressionList expr fuel closing)
      (expressionList expr' fuel' closing) := by
  have hround (ms ns : List Node) (h : Node.EachLooksLike ms ns) : Parallel i .settled .settled
      (Round.Agrees Node.EachLooksLike Node.EachLooksLike) (expressionsRound expr ms)
      (expressionsRound expr' ns) := by
    refine .token .peek fun t t' ht => ?_
    rw [ht.1]
    split
    · exact .next .advance <| .next .advance <| .node (he i _) fun _ _ hn => .pure (h.concat hn)
    · exact .pure h
  refine .token .peek fun t t' ht => ?_
  rw [ht.1]
  split
  · exact .next .advance <| .pure rfl
  · refine .next .advance <| .node (he i _) fun m n hn => ?_
    refine .nodes (.rounds .refl .refl hround _ _ (.singleton hn)) fun ms ns hns => ?_
    exact .next (.expect _) <| .pure hns

theorem array_parallel :
    Parallel i .fresh .settled Node.LooksLike (array expr fuel) (array expr' fuel') := by
  refine .settle (.token .current fun t t' ht =>
    .nodes (expressionList_parallel he _ _ _) fun ms ns hns => .pure ?_)
  simp only [Node.LooksLike, Node.mapTokens, ht.unplaced_eq, hns.eq]

theorem call_parallel {callee callee' : Node} (h : callee.LooksLike callee') :
    Parallel i .fresh .settled Node.LooksLike (call expr fuel callee)
      (call expr' fuel' callee') := by
  refine .settle (.token .current fun t t' ht =>
    .nodes (expressionList_parallel he _ _ _) fun ms ns hns => .pure ?_)
  simp only [Node.LooksLike, Node.mapTokens, ht.unplaced_eq, h.eq, hns.eq]

omit he in
theorem parameters_parallel : Parallel i .fresh .fresh Node.EachLooksLike
    (parameters (σ := σ) fuel) (parameters (σ := τ) fuel') := by
  have hround (ms ns : List Node) (h : Node.EachLooksLike ms ns) : Parallel i .settled .settled
      (Round.Agrees Node.EachLooksLike Node.EachLooksLike) (parametersRound (σ := σ) ms)
      (parametersRound (σ := τ) ns) := by
    refine .token .peek fun t t' ht => ?_
    rw [ht.1]
    split
    · exact .settle (.next .advance <| .next (.expect _) <|
        .node identifier_parallel fun _ _ hn => .pure (h.concat hn))
    · exact .pure h
  refine .token .peek fun t t' ht => ?_
  rw [ht.1]
  split
  · exact .next .advance <| .pure rfl
  · refine .next (.expect _) <| .node (.settle identifier_parallel) fun m n hn => ?_
    refine .nodes (.rounds .refl .refl hround _ _ (.singleton hn)) fun ms ns hns => ?_
    exact .next (.expect _) <| .pure hns

/-! #### Blocks -/

/-- **Statements** are read alike, also where one of them is dropped. -/
theorem statements_parallel (ends : TokenKind → Bool) :
    Parallel true .fresh .fresh Node.EachLooksLike (statements expr fuel ends)
      (statements expr' fuel' ends) := by
  refine .rounds Node.EachLooksLike.refl Node.EachLooksLike.refl (fun before before' hbefore => ?_)
    _ _ (Node.EachLooksLike.refl [])
  refine .token .current fun t t' ht => ?_
  rw [ht.1]
  split
  · exact .pure hbefore
  refine .attempt Node.LooksLike.refl (statement_parallel he) (fun n n' hn => ?_) ?_
  · -- The statement is read, and the parser moves on to the next one.
    exact .next .advance <| .pure (hbefore.concat hn)
  · -- The statement is dropped. What comes next is read as if nothing had been looked at.
    refine .forget (.bind (fun _ => rfl) (synchronize_parallel _ _) fun b b' hb => ?_)
    subst hb
    split
    · exact .pure hbefore
    · exact .next .advance <| .pure hbefore

/-- What a block reads behind its opening brace. -/
theorem blockBody_parallel {t t' : Token} (ht : t.LooksLike t') :
    Parallel true .fresh .fresh Node.LooksLike
      (statements expr fuel endsBlock >>= fun body => closeBlock >>= fun _ => pure (.block t body))
      (statements expr' fuel' endsBlock >>= fun body => closeBlock >>= fun _ =>
        pure (.block t' body)) := by
  refine .nodes (statements_parallel he _ _ _) fun ms ns hns => .next .closeBlock <| .pure ?_
  simp only [Node.LooksLike, Node.mapTokens, ht.unplaced_eq, hns.eq]

theorem block_parallel :
    Parallel true .fresh .fresh Node.LooksLike (block expr fuel) (block expr' fuel') :=
  .token .current fun _ _ ht => .next .advance <| blockBody_parallel he _ _ ht

theorem program_parallel : Parallel true .fresh .fresh (fun p p' : Program =>
    Node.EachLooksLike p.statements p'.statements) (program expr fuel) (program expr' fuel') :=
  .nodes (statements_parallel he _ _ _) fun _ _ hns => .pure hns

/-- A block where a rule expects one, and what the rule does behind it. -/
theorem expect_block_parallel {b c : Stage} {α : Type} {S : α → α → Prop} {f : Node → Parse σ α}
    {f' : Node → Parse τ α}
    (h : ∀ n n', n.LooksLike n' → Parallel true .settled c S (f n) (f' n')) :
    Parallel i b c S (expect .leftBrace >>= fun _ => block expr fuel >>= f)
      (expect .leftBrace >>= fun _ => block expr' fuel' >>= f') :=
  .braces Node.LooksLike.refl (fun _ _ ht => .settle (blockBody_parallel he _ _ ht)) h

theorem alternative_parallel :
    Parallel i .settled .settled Node.OptionLooksLike (alternative expr fuel)
      (alternative expr' fuel') := by
  refine .token .peek fun t t' ht => ?_
  rw [ht.1]
  split
  · exact .next .advance <| expect_block_parallel he _ _ fun n n' hn => .pure hn
  · exact .pure trivial

theorem conditional_parallel :
    Parallel i .fresh .settled Node.LooksLike (conditional expr fuel)
      (conditional expr' fuel') := by
  refine .token .current fun t t' ht => .next (.expect _) <| .next .advance <|
    .node (he i _) fun c c' hc => .next (.expect _) <|
    expect_block_parallel he _ _ fun n n' hn =>
    .bind Node.OptionLooksLike.refl (alternative_parallel he _ _) fun o o' ho => .pure ?_
  cases o with
  | none =>
    cases o' with
    | none => simp only [Node.LooksLike, Node.mapTokens, ht.unplaced_eq, hc.eq, hn.eq]
    | some m' => exact ho.elim
  | some m =>
    cases o' with
    | none => exact ho.elim
    | some m' =>
      have ho : m.LooksLike m' := ho
      simp only [Node.LooksLike, Node.mapTokens, ht.unplaced_eq, hc.eq, hn.eq, ho.eq]

theorem function_parallel :
    Parallel i .fresh .settled Node.LooksLike (function expr fuel) (function expr' fuel') := by
  refine .token .current fun t t' ht => .next (.expect _) <|
    .nodes (parameters_parallel _ _) fun ms ns hns =>
    expect_block_parallel he _ _ fun n n' hn => .pure ?_
  simp only [Node.LooksLike, Node.mapTokens, ht.unplaced_eq, hns.eq, hn.eq]

/-! #### Expressions -/

/-- Both sides have a rule for a kind, and the two rules are parallel; or neither has one. -/
theorem prefixRule_parallel (kind : TokenKind) :
    prefixRule expr fuel kind = none ∧ prefixRule expr' fuel' kind = none ∨
      ∃ rule rule', prefixRule expr fuel kind = some rule ∧
        prefixRule expr' fuel' kind = some rule' ∧
        Parallel i .fresh .settled Node.LooksLike rule rule' := by
  cases kind
  case identifier => exact .inr ⟨_, _, rfl, rfl, .settle identifier_parallel⟩
  case int => exact .inr ⟨_, _, rfl, rfl, .settle integer_parallel⟩
  case trueKeyword => exact .inr ⟨_, _, rfl, rfl, .settle boolean_parallel⟩
  case falseKeyword => exact .inr ⟨_, _, rfl, rfl, .settle boolean_parallel⟩
  case string => exact .inr ⟨_, _, rfl, rfl, .settle string_parallel⟩
  case bang => exact .inr ⟨_, _, rfl, rfl, unary_parallel he⟩
  case minus => exact .inr ⟨_, _, rfl, rfl, unary_parallel he⟩
  case leftParen => exact .inr ⟨_, _, rfl, rfl, grouped_parallel he⟩
  case leftBracket => exact .inr ⟨_, _, rfl, rfl, array_parallel he _ _⟩
  case ifKeyword => exact .inr ⟨_, _, rfl, rfl, conditional_parallel he _ _⟩
  case functionKeyword => exact .inr ⟨_, _, rfl, rfl, function_parallel he _ _⟩
  all_goals exact .inl ⟨rfl, rfl⟩

theorem infixRule_parallel (kind : TokenKind) :
    infixRule expr fuel kind = none ∧ infixRule expr' fuel' kind = none ∨
      ∃ rule rule', infixRule expr fuel kind = some rule ∧
        infixRule expr' fuel' kind = some rule' ∧ ∀ left left', left.LooksLike left' →
          Parallel i .fresh .settled Node.LooksLike (rule left) (rule' left') := by
  cases kind
  case leftParen => exact .inr ⟨_, _, rfl, rfl, fun _ _ h => call_parallel he _ _ h⟩
  -- What is left is an operator between its operands, or has no rule.
  all_goals first
    | exact .inl ⟨rfl, rfl⟩
    | exact .inr ⟨_, _, rfl, rfl, fun _ _ h => binary_parallel he h⟩

theorem operatorsRound_parallel (floor : Nat) {left left' : Node} (h : left.LooksLike left') :
    Parallel i .settled .settled (Round.Agrees Node.LooksLike Node.LooksLike)
      (operatorsRound expr fuel floor left) (operatorsRound expr' fuel' floor left') := by
  refine .token .peek fun t t' ht => ?_
  rw [ht.1]
  split
  · rcases infixRule_parallel he _ _ t'.kind with ⟨hnone, hnone'⟩ | ⟨rule, rule', hr, hr', hrule⟩
    · rw [hnone, hnone']
      exact .pure h
    · rw [hr, hr']
      exact .next .advance <| .node (hrule _ _ h) fun _ _ hn => .pure hn
  · exact .pure h

end Rules

/-- One level of nesting. Before anything else is looked at, the first token is judged: an
expression has to begin with it. -/
theorem expression_succ_parallel {N N' : Nat}
    (he : ∀ (i : Bool) floor, Parallel i .fresh .settled Node.LooksLike
      (expression (σ := σ) N floor) (expression (σ := τ) N' floor)) (i : Bool) (floor : Nat) :
    Parallel i .fresh .settled Node.LooksLike (expression (σ := σ) (N + 1) floor)
      (expression (σ := τ) (N' + 1) floor) := by
  refine .judge (fun t => prefixRule (expression (σ := σ) N) (N + 1) t.kind ≠ none)
    (fun t t' ht hpasses => ?_) fun t t' ht hfails => ?_
  · rcases prefixRule_parallel he _ _ t.kind with ⟨hnone, -⟩ | ⟨rule, rule', hr, hr', hrule⟩
    · exact absurd hnone hpasses
    · rw [← ht.1, hr, hr']
      exact .node hrule fun left left' hleft =>
        .rounds Node.LooksLike.refl Node.LooksLike.refl
          (fun _ _ h => operatorsRound_parallel he _ _ floor h) _ _ hleft
  · rcases prefixRule_parallel (i := i) he _ _ t.kind with ⟨hnone, hnone'⟩ | ⟨rule, _, hr, -⟩
    · rw [← ht.1, hnone, hnone']
      exact ⟨.noExpression t, rfl, rfl⟩
    · exact absurd (hr ▸ Option.some_ne_none rule) hfails

theorem expression_self (N : Nat) (i : Bool) (floor : Nat) :
    Parallel i .fresh .settled Node.LooksLike (expression (σ := σ) N floor)
      (expression (σ := σ) N floor) := by
  induction N generalizing i floor with
  | zero => exact .outOfFuel .outOfFuel
  | succ N ih => exact expression_succ_parallel ih i floor

/-- An expression is built from primitive actions, however deeply it may be nested. -/
theorem expression_built (N : Nat) (i : Bool) (floor : Nat) :
    Built i .fresh .settled (expression (σ := σ) N floor) :=
  (expression_self N i floor).built_left

/-- A sequence of statements is built from primitive actions. -/
theorem statements_built (N fuel : Nat) (ends : TokenKind → Bool) :
    Built true .fresh .fresh (statements (expression (σ := σ) N) fuel ends) := by
  have hself : Parallel true .fresh .fresh Node.EachLooksLike
      (statements (expression (σ := σ) N) fuel ends) (statements (expression N) fuel ends) :=
    statements_parallel (expression_self N) fuel fuel ends
  exact hself.built_left

/-- **Expressions** are read alike, as far as the fuel of both readers goes. -/
theorem expression_parallel (N N' : Nat) (i : Bool) (floor : Nat) :
    Parallel i .fresh .settled Node.LooksLike (expression (σ := σ) N floor)
      (expression (σ := τ) N' floor) := by
  induction N generalizing N' i floor with
  | zero => exact .outOfFuel (expression_built N' i floor)
  | succ N ih =>
    cases N' with
    | zero => exact .outOfFuel_right (expression_built (N + 1) i floor)
    | succ N' => exact expression_succ_parallel (ih N') i floor

end Parse

end MonkeySyntax
