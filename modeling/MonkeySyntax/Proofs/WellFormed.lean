import MonkeySyntax.Proofs.Numerals
import MonkeySyntax.Proofs.Selection

/-!
# The trees of the parser are well formed

A tree can be built by hand from any parts (`Node`). The trees that the parser returns are not of
this kind: whatever is wrong with a text, each node says what its token says, each of its parts is
there, and each part is of the sort that belongs in its place (`Node.WellFormed`).

Three things come together in this. That a node goes with its token is known already, as the tree
has been drawn from the tokens (`Node.Drawn`); and what the literal of a token of some kind looks
like is known of the scanner (`TokenKind.HasLiteral`). The sorts of the parts are new. They do not
depend on the text at all but on the grammar alone, so this part speaks of what an action is done
with and not of the parsers before and behind it (`Parse.Yields`).
-/

namespace MonkeySyntax

namespace Node

/-! ### Parts of the right sorts -/

/-- The node is an expression. -/
def isExpression : Node → Bool
  | identifier .. | integer .. | boolean .. | string .. | array .. | unary .. | binary ..
  | conditional .. | function .. | call .. => true
  | _ => false

/-- In each place of the node there is a part of the sort that belongs there. -/
def PartsFit : Node → Prop
  | bare .. | text _ => False
  | identifier .. | integer .. | boolean .. | string .. => True
  | program statements | block _ statements => ∀ s ∈ statements, s.isStatement = true
  | array _ elements => ∀ e ∈ elements, e.isExpression = true
  | unary _ _ right => right.isExpression = true
  | binary _ left _ right => left.isExpression = true ∧ right.isExpression = true
  | conditional _ condition consequence alternative =>
    condition.isExpression = true ∧ consequence.isBlock = true ∧
      ∀ b ∈ alternative, b.isBlock = true
  | function _ parameters body => (∀ n ∈ parameters, n.isName = true) ∧ body.isBlock = true
  | call _ callee arguments =>
    callee.isExpression = true ∧ ∀ a ∈ arguments, a.isExpression = true
  | letStatement _ name value => name.isName = true ∧ value.isExpression = true
  | returnStatement _ value => value.isExpression = true
  | expressionStatement _ expression => expression.isExpression = true

/-- The tree is of the given sort, and at every depth of it the parts fit. -/
structure Fits (sort : Node → Bool) (n : Node) : Prop where
  sort_eq : sort n = true
  parts : ∀ m : Node, m.IsIn n → m.PartsFit

theorem Fits.of_children {sort : Node → Bool} {n : Node} (hsort : sort n = true)
    (hparts : n.PartsFit) (hchildren : ∀ c ∈ n.children, ∃ sort', Fits sort' c) : Fits sort n where
  sort_eq := hsort
  parts := by
    refine forall_isIn hparts fun c hc => ?_
    obtain ⟨sort', hfits⟩ := hchildren c hc
    exact hfits.parts

/-- A node without parts fits. -/
theorem Fits.of_leaf {sort : Node → Bool} {n : Node} (hsort : sort n = true) (hparts : n.PartsFit)
    (hleaf : n.children = []) : Fits sort n :=
  .of_children hsort hparts fun c hc => by simp [hleaf] at hc

/-- Each of the trees is of the given sort, and at every depth of them the parts fit. -/
def FitsEach (sort : Node → Bool) (ns : List Node) : Prop :=
  ∀ n ∈ ns, Fits sort n

theorem FitsEach.nil {sort : Node → Bool} : FitsEach sort [] := fun _ hn =>
  absurd hn List.not_mem_nil

theorem FitsEach.concat {sort : Node → Bool} {ns : List Node} {n : Node} (h : FitsEach sort ns)
    (hn : Fits sort n) : FitsEach sort (ns ++ [n]) := by
  intro m hm
  rcases List.mem_append.1 hm with hm | hm
  · exact h m hm
  · rwa [List.mem_singleton.1 hm]

end Node

open Node (Fits FitsEach)

namespace Parse

/-! ### What actions yield -/

/-- Whatever the action is done with has the property. -/
def Yields {σ α : Type} (P : α → Prop) (m : Parse σ α) : Prop :=
  ∀ p : Parser σ, (m.run p).Meets True (fun a _ => P a) fun _ => True

/-- What the next round starts from has the one property, and the result of the loop the other. -/
def Round.Satisfies {α β : Type} (P : α → Prop) (Q : β → Prop) : Round α β → Prop
  | next a => P a
  | stop b => Q b

variable {σ α β : Type} {P : α → Prop} {Q : β → Prop}

theorem yields_pure {a : α} (h : P a) : Yields P (pure a : Parse σ α) := fun _ => h

theorem yields_reject (d : Diagnostic) : Yields P (reject d : Parse σ α) := fun _ => trivial

theorem Yields.bind {m : Parse σ α} {f : α → Parse σ β} (hm : Yields P m)
    (hf : ∀ a, P a → Yields Q (f a)) : Yields Q (m >>= f) := by
  intro p
  rw [meets_bind]
  exact (hm p).mono (fun a q ha => hf a ha q) fun _ h => h

/-- An action whose value does not matter. -/
theorem Yields.next {m : Parse σ α} {f : α → Parse σ β} (hf : ∀ a, Yields Q (f a)) :
    Yields Q (m >>= f) := by
  intro p
  rw [meets_bind]
  cases m.run p with
  | done a q => exact hf a q
  | rejected q => trivial
  | outOfFuel => trivial

theorem Yields.attempt {m : Parse σ α} (hm : Yields P m) :
    Yields (fun o => ∀ a ∈ o, P a) (attempt m) := by
  intro p
  rw [meets_attempt]
  refine (hm p).mono (fun a q ha b hb => ?_) fun q _ b hb => ?_
  · obtain rfl := Option.some.inj hb
    exact ha
  · cases hb

/-- A loop keeps what each of its rounds keeps. -/
theorem Yields.rounds {round : α → Parse σ (Round α β)}
    (h : ∀ a, P a → Yields (Round.Satisfies P Q) (round a)) (bound : Nat) {a : α} (ha : P a) :
    Yields Q (rounds round bound a) := by
  induction bound generalizing a with
  | zero => exact fun _ => trivial
  | succ bound ih =>
    refine (h a ha).bind fun o ho => ?_
    cases o with
    | next a' => exact ih ho
    | stop b => exact yields_pure ho

/-! ### The sorts of what rules yield -/

theorem identifier_yields : Yields (Fits Node.isName) (identifier (σ := σ)) :=
  .next fun _ => yields_pure (.of_leaf rfl trivial rfl)

variable [TokenStream σ]

theorem parameters_yields (bound : Nat) :
    Yields (FitsEach Node.isName) (parameters (σ := σ) bound) := by
  have hround (names : List Node) (h : FitsEach Node.isName names) :
      Yields (Round.Satisfies (FitsEach Node.isName) (FitsEach Node.isName))
        (parametersRound (σ := σ) names) := by
    refine .next fun next => ?_
    split
    · exact .next fun _ => .next fun _ => identifier_yields.bind fun name hname =>
        yields_pure (h.concat hname)
    · exact yields_pure h
  refine .next fun next => ?_
  split
  · exact .next fun _ => yields_pure .nil
  · refine .next fun _ => identifier_yields.bind fun name hname => ?_
    refine (Yields.rounds hround bound (FitsEach.nil.concat hname)).bind fun names hnames => ?_
    exact .next fun _ => yields_pure hnames

section Rules

variable {expr : Nat → Parse σ Node}
  (he : ∀ floor, Yields (Fits Node.isExpression) (expr floor))

include he

theorem unary_yields : Yields (Fits Node.isExpression) (unary expr) := by
  refine .next fun token => .next fun _ => (he _).bind fun right hright => yields_pure ?_
  exact .of_children rfl hright.sort_eq (by simpa [Node.children] using ⟨_, hright⟩)

theorem binary_yields {left : Node} (hleft : Fits Node.isExpression left) :
    Yields (Fits Node.isExpression) (binary expr left) := by
  refine .next fun token => .next fun _ => (he _).bind fun right hright => yields_pure ?_
  exact .of_children rfl ⟨hleft.sort_eq, hright.sort_eq⟩
    (by simpa [Node.children] using ⟨⟨_, hleft⟩, _, hright⟩)

theorem grouped_yields : Yields (Fits Node.isExpression) (grouped expr) :=
  .next fun _ => (he _).bind fun _ hinner => .next fun _ => yields_pure hinner

theorem expressionList_yields (bound : Nat) (closing : TokenKind) :
    Yields (FitsEach Node.isExpression) (expressionList expr bound closing) := by
  have hround (items : List Node) (h : FitsEach Node.isExpression items) :
      Yields (Round.Satisfies (FitsEach Node.isExpression) (FitsEach Node.isExpression))
        (expressionsRound expr items) := by
    refine .next fun next => ?_
    split
    · exact .next fun _ => .next fun _ => (he _).bind fun item hitem =>
        yields_pure (h.concat hitem)
    · exact yields_pure h
  refine .next fun next => ?_
  split
  · exact .next fun _ => yields_pure .nil
  · refine .next fun _ => (he _).bind fun item hitem => ?_
    refine (Yields.rounds hround bound (FitsEach.nil.concat hitem)).bind fun items hitems => ?_
    exact .next fun _ => yields_pure hitems

theorem array_yields (bound : Nat) : Yields (Fits Node.isExpression) (array expr bound) := by
  refine .next fun token => (expressionList_yields he bound _).bind fun es hes => yields_pure ?_
  exact .of_children rfl (fun e h => (hes e h).sort_eq) fun e h => ⟨_, hes e h⟩

theorem call_yields (bound : Nat) {callee : Node} (hcallee : Fits Node.isExpression callee) :
    Yields (Fits Node.isExpression) (call expr bound callee) := by
  refine .next fun token => (expressionList_yields he bound _).bind fun es hes => yields_pure ?_
  refine .of_children rfl ⟨hcallee.sort_eq, fun e h => (hes e h).sort_eq⟩ fun c hc => ?_
  rcases List.mem_cons.1 hc with rfl | hc
  · exact ⟨_, hcallee⟩
  · exact ⟨_, hes c hc⟩

theorem letStatement_yields : Yields (Fits Node.isStatement) (letStatement expr) := by
  refine .next fun token => .next fun _ => identifier_yields.bind fun name hname => ?_
  refine .next fun _ => .next fun _ => (he _).bind fun value hvalue => ?_
  refine .next fun _ => yields_pure (.of_children rfl ⟨hname.sort_eq, hvalue.sort_eq⟩ ?_)
  simpa [Node.children] using ⟨⟨_, hname⟩, _, hvalue⟩

theorem returnStatement_yields : Yields (Fits Node.isStatement) (returnStatement expr) := by
  refine .next fun token => .next fun _ => (he _).bind fun value hvalue => ?_
  refine .next fun _ => yields_pure (.of_children rfl hvalue.sort_eq ?_)
  simpa [Node.children] using ⟨_, hvalue⟩

theorem expressionStatement_yields : Yields (Fits Node.isStatement) (expressionStatement expr) := by
  refine .next fun token => (he _).bind fun value hvalue => ?_
  refine .next fun _ => yields_pure (.of_children rfl hvalue.sort_eq ?_)
  simpa [Node.children] using ⟨_, hvalue⟩

theorem statement_yields : Yields (Fits Node.isStatement) (statement expr) := by
  refine .next fun token => ?_
  split
  · exact letStatement_yields he
  · exact returnStatement_yields he
  · exact expressionStatement_yields he

theorem statements_yields (fuel : Nat) (ends : TokenKind → Bool) :
    Yields (FitsEach Node.isStatement) (statements expr fuel ends) := by
  refine Yields.rounds (P := FitsEach Node.isStatement) (fun before h => ?_) fuel .nil
  refine .next fun token => ?_
  split
  · exact yields_pure h
  · refine (statement_yields he).attempt.bind fun o ho => ?_
    cases o with
    | some this => exact .next fun _ => yields_pure (h.concat (ho this rfl))
    | none =>
      -- A statement that was given up adds nothing, so what there is of it need not fit.
      refine .next fun onOuterBrace => ?_
      split
      · exact yields_pure h
      · exact .next fun _ => yields_pure h

theorem block_yields (fuel : Nat) : Yields (Fits Node.isBlock) (block expr fuel) := by
  refine .next fun token => .next fun _ => (statements_yields he fuel _).bind fun body hbody => ?_
  refine .next fun _ => yields_pure (.of_children rfl (fun s h => (hbody s h).sort_eq) ?_)
  exact fun s h => ⟨_, hbody s h⟩

theorem conditional_yields (fuel : Nat) :
    Yields (Fits Node.isExpression) (conditional expr fuel) := by
  have halternative :
      Yields (fun o => ∀ b ∈ o, Fits Node.isBlock b) (alternative expr fuel) := by
    refine .next fun next => ?_
    split
    · refine .next fun _ => .next fun _ => (block_yields he fuel).bind fun body hbody => ?_
      exact yields_pure (by simpa using hbody)
    · exact yields_pure (by simp)
  refine .next fun token => .next fun _ => .next fun _ => (he _).bind fun condition hcond => ?_
  refine .next fun _ => .next fun _ => (block_yields he fuel).bind fun consequence hcons => ?_
  refine halternative.bind fun otherwise hother => yields_pure ?_
  refine .of_children rfl ⟨hcond.sort_eq, hcons.sort_eq, fun b h => (hother b h).sort_eq⟩
    fun c hc => ?_
  simp only [Node.children, List.mem_cons, Option.mem_toList] at hc
  rcases hc with rfl | rfl | hc
  · exact ⟨_, hcond⟩
  · exact ⟨_, hcons⟩
  · exact ⟨_, hother c hc⟩

theorem function_yields (fuel : Nat) : Yields (Fits Node.isExpression) (function expr fuel) := by
  refine .next fun token => .next fun _ => (parameters_yields fuel).bind fun names hnames => ?_
  refine .next fun _ => (block_yields he fuel).bind fun body hbody => yields_pure ?_
  refine .of_children rfl ⟨fun n h => (hnames n h).sort_eq, hbody.sort_eq⟩ fun c hc => ?_
  simp only [Node.children, List.mem_append, List.mem_singleton] at hc
  rcases hc with hc | rfl
  · exact ⟨_, hnames c hc⟩
  · exact ⟨_, hbody⟩

theorem prefixRule_yields {fuel : Nat} {kind : TokenKind} {rule : Parse σ Node}
    (h : prefixRule expr fuel kind = some rule) : Yields (Fits Node.isExpression) rule := by
  cases kind <;> cases h
  case identifier => exact .next fun _ => yields_pure (.of_leaf rfl trivial rfl)
  case int =>
    refine .next fun token => ?_
    split
    · exact yields_pure (.of_leaf rfl trivial rfl)
    · exact yields_reject _
  case trueKeyword => exact .next fun _ => yields_pure (.of_leaf rfl trivial rfl)
  case falseKeyword => exact .next fun _ => yields_pure (.of_leaf rfl trivial rfl)
  case string => exact .next fun _ => yields_pure (.of_leaf rfl trivial rfl)
  case bang => exact unary_yields he
  case minus => exact unary_yields he
  case leftParen => exact grouped_yields he
  case leftBracket => exact array_yields he fuel
  case ifKeyword => exact conditional_yields he fuel
  case functionKeyword => exact function_yields he fuel

theorem operatorsRound_yields {fuel floor : Nat} (left : Node) (h : Fits Node.isExpression left) :
    Yields (Round.Satisfies (Fits Node.isExpression) (Fits Node.isExpression))
      (operatorsRound expr fuel floor left) := by
  refine .next fun next => ?_
  split
  · split
    · exact yields_pure h
    · next rule hrule =>
      refine .next fun _ => ?_
      rcases infixRule_cases hrule with ⟨-, rfl⟩ | ⟨-, rfl⟩
      · exact (binary_yields he h).bind fun _ hwider => yields_pure hwider
      · exact (call_yields he fuel h).bind fun _ hwider => yields_pure hwider
  · exact yields_pure h

end Rules

/-- **Expressions** have parts of the right sorts, at every depth. -/
theorem expression_yields (N floor : Nat) :
    Yields (σ := σ) (Fits Node.isExpression) (expression N floor) := by
  induction N generalizing floor with
  | zero => exact fun _ => trivial
  | succ N ih =>
    refine .next fun token => ?_
    split
    · exact yields_reject _
    · next rule hrule =>
      refine (prefixRule_yields ih hrule).bind fun left hleft => ?_
      exact Yields.rounds (operatorsRound_yields ih) _ hleft

end Parse

namespace Node

/-! ### Nodes and their tokens -/

/-- The operators between operands, with the kinds of their tokens. -/
def binaryOperators : List (String × TokenKind) :=
  [("+", .plus), ("-", .minus), ("*", .star), ("/", .slash), ("==", .equal), ("!=", .notEqual),
    ("<", .lessThan), (">", .greaterThan)]

open Scanner in
/-- The node has a token of the kind that belongs to it, and says what the token says. A name is not
reserved; an integer is written in digits only and fits into 64 bits with a sign, which is not
used; and there is no quote in a string. -/
def MatchesToken : Node → Prop
  | bare .. | text _ => False
  | program _ | expressionStatement .. => True
  | identifier t name =>
    t.kind = .identifier ∧ name = t.literal ∧ ∀ entry ∈ keywords, entry.1 ≠ name
  | integer t (.number value) =>
    t.kind = .int ∧ IsRun isDigit isDigit t.literal.toList ∧
      Numeral.value? t.literal = some value ∧ 0 ≤ value ∧ value ≤ 0x7FFFFFFFFFFFFFFF
  | integer _ (.truth _) => False
  | boolean t value =>
    t.kind = .trueKeyword ∧ value = true ∨ t.kind = .falseKeyword ∧ value = false
  | string t value => t.kind = .string ∧ value = t.literal ∧ '\x22' ∉ value.toList
  | array t _ => t.kind = .leftBracket
  | unary t operator _ =>
    operator = t.literal ∧ (operator = "!" ∧ t.kind = .bang ∨ operator = "-" ∧ t.kind = .minus)
  | binary t _ operator _ => operator = t.literal ∧ (operator, t.kind) ∈ binaryOperators
  | conditional t .. => t.kind = .ifKeyword
  | function t .. => t.kind = .functionKeyword
  | call t .. => t.kind = .leftParen
  | letStatement t .. => t.kind = .letKeyword
  | returnStatement t _ => t.kind = .returnKeyword
  | block t _ => t.kind = .leftBrace

/-- The node goes with its token, and in each of its places there is a part that belongs there. -/
structure WellFormed (n : Node) : Prop where
  matchesToken : n.MatchesToken
  partsFit : n.PartsFit

theorem ne_of_ofWord_eq_identifier {word : String} (h : TokenKind.ofWord word = .identifier) :
    ∀ entry ∈ keywords, entry.1 ≠ word := by
  have hkeywords : ∀ entry ∈ keywords, TokenKind.ofWord entry.1 ≠ .identifier := by decide
  rintro entry hentry rfl
  exact hkeywords entry hentry h

/-- A node that goes with a token of the scanner says what the token says. -/
theorem WellMade.matchesToken {n : Node} {t : Token} (h : n.WellMade) (ht : n.token? = some t)
    (hliteral : t.kind.HasLiteral t.literal) : n.MatchesToken := by
  cases n with
  | bare | text | program => exact h.elim
  | expressionStatement => trivial
  | identifier =>
    obtain rfl := Option.some.inj ht
    obtain ⟨hkind, rfl⟩ := h
    rw [hkind] at hliteral
    exact ⟨hkind, rfl, ne_of_ofWord_eq_identifier hliteral.2⟩
  | integer t value =>
    obtain rfl := Option.some.inj ht
    cases value with
    | truth => exact h.elim
    | number value =>
      obtain ⟨hkind, hvalue⟩ := h
      rw [hkind] at hliteral
      -- The scanner lets dots into a number, but such a literal has no value.
      have hnumber := (Option.filter_eq_some_iff.1 hvalue).1
      obtain ⟨hdigits, hnonneg⟩ := Numeral.isDigit_of_number? hliteral hnumber
      obtain ⟨c, cs, hcs, -⟩ := hliteral.exists_cons
      refine ⟨hkind, ?_, hvalue, hnonneg, (Numeral.inRange_of_value? hvalue).2⟩
      rw [hcs] at hdigits ⊢
      exact ⟨hdigits c List.mem_cons_self, fun d hd => hdigits d (List.mem_cons_of_mem c hd)⟩
  | boolean =>
    obtain rfl := Option.some.inj ht
    exact h
  | string =>
    obtain rfl := Option.some.inj ht
    obtain ⟨hkind, rfl⟩ := h
    rw [hkind] at hliteral
    exact ⟨hkind, rfl, hliteral⟩
  | array | call | returnStatement =>
    obtain rfl := Option.some.inj ht
    exact h
  | conditional | function | letStatement | block =>
    obtain rfl := Option.some.inj ht
    exact h.1
  | unary =>
    obtain rfl := Option.some.inj ht
    obtain ⟨hkind, rfl⟩ := h
    refine ⟨rfl, ?_⟩
    rcases hkind with hkind | hkind <;> rw [hkind] at hliteral
    · exact .inl ⟨hliteral, hkind⟩
    · exact .inr ⟨hliteral, hkind⟩
  | binary t left operator right =>
    obtain rfl := Option.some.inj ht
    obtain ⟨hkind, rfl⟩ := h
    -- Kinds, their literals and the table of operators are finite, so each kind is looked at.
    have hoperators : ∀ k : TokenKind, k.IsBinary → (k.display, k) ∈ binaryOperators := by
      intro k hk
      cases k <;> first | decide | exact absurd hk (by decide)
    have hdisplay : t.literal = t.kind.display := by
      generalize t.kind = k at hkind hliteral
      cases k <;> first | exact hliteral | exact absurd hkind (by decide)
    exact ⟨rfl, by rw [hdisplay]; exact hoperators t.kind hkind⟩

variable {ns : List Node} {ts : List Token}

/-- At any depth of trees that have been read from tokens, each node goes with one of these. -/
theorem Drawn.wellMade (h : Drawn ns ts) :
    ∀ m ∈ ns, ∀ n : Node, n.IsIn m → n.WellMade ∧ ∃ t ∈ ts, n.token? = some t := by
  -- On the way the trees have been read. Each rule that makes a node consumes the node's token.
  induction h with
  | nil => exact fun m hm => absurd hm List.not_mem_nil
  | pass t => exact fun m hm => absurd hm List.not_mem_nil
  | append _ _ ihm ihn =>
    intro m hm n hn
    rcases List.mem_append.1 hm with hm | hm
    · obtain ⟨hmade, t, ht, hof⟩ := ihm m hm n hn
      exact ⟨hmade, t, List.mem_append_left _ ht, hof⟩
    · obtain ⟨hmade, t, ht, hof⟩ := ihn m hm n hn
      exact ⟨hmade, t, List.mem_append_right _ ht, hof⟩
  | @first m t _ hmade _ hof _ ih =>
    intro m' hm
    obtain rfl := List.mem_singleton.1 hm
    refine forall_isIn ⟨hmade, t, List.mem_cons_self, hof⟩ fun c hc n hn => ?_
    obtain ⟨hmade, u, hu, hof⟩ := ih c hc n hn
    exact ⟨hmade, u, List.mem_cons_of_mem _ hu, hof⟩
  | @within m _ _ t _ _ hmade _ hof hchildren _ _ ihfirst ihrest =>
    intro m' hm
    obtain rfl := List.mem_singleton.1 hm
    refine forall_isIn ⟨hmade, t, by simp, hof⟩ fun c hc n hn => ?_
    rw [hchildren] at hc
    rcases List.mem_cons.1 hc with rfl | hc
    · obtain ⟨hmade, u, hu, hof⟩ := ihfirst c List.mem_cons_self n hn
      exact ⟨hmade, u, by simp [hu], hof⟩
    · obtain ⟨hmade, u, hu, hof⟩ := ihrest c hc n hn
      exact ⟨hmade, u, by simp [hu], hof⟩
  | @expressionStatement t _ _ _ ih =>
    intro m' hm
    obtain rfl := List.mem_singleton.1 hm
    exact forall_isIn ⟨trivial, t, List.mem_cons_self, rfl⟩ ih

end Node

open Node (Fits FitsEach)

/-- The parts of a program that has been read fit, at every depth. -/
theorem Reading.fits_ofStream {σ : Type} [TokenStream σ] [LawfulTokenStream σ] (s : σ) :
    FitsEach Node.isStatement (ofStream s).program.statements := by
  obtain ⟨body, q, hrun, -, heq⟩ :=
    exists_run (Parser.genuine_ofStream s) (Parser.behind_ofStream s)
  have hyields := Parse.statements_yields (Parse.expression_yields (Parser.ofStream s).fuel)
    (Parser.ofStream s).fuel Parse.endsProgram (Parser.ofStream s)
  rw [hrun] at hyields
  rw [ofStream, heq]
  exact hyields

/-- **Every tree that is returned is well formed**, whether or not there is something wrong with the
text. Each node of the program, at any depth, goes with its token and has parts that belong where
they are; and all nodes but the program itself come from a token of the text. -/
theorem parse_wellFormed (source : String) (n : Node)
    (h : n.IsIn (parse source).program.toNode) :
    n.WellFormed ∧
      (n = (parse source).program.toNode ∨ ∃ t ∈ tokenize source, n.token? = some t) := by
  obtain ⟨hdrawn, hstatements⟩ := Reading.drawn_ofStream (Scanner.Cursor.ofString source)
  have hfits := Reading.fits_ofStream (Scanner.Cursor.ofString source)
  revert n
  -- The program has no token of its own. What is below it has been read from tokens.
  refine Node.forall_isIn ⟨⟨trivial, hstatements⟩, .inl rfl⟩ fun c hc n hn => ?_
  obtain ⟨hmade, t, ht, hof⟩ := hdrawn.wellMade c hc n hn
  have hliteral : t.kind.HasLiteral t.literal := Token.lexical_iff.1 (lexical_of_mem_tokenize ht)
  refine ⟨⟨hmade.matchesToken hof hliteral, (hfits c hc).parts n hn⟩, .inr ⟨t, ?_, hof⟩⟩
  exact (List.dropLast_sublist _).subset ht

/-- An operand below a statement that follows a dropped one. -/
theorem parse_wellFormed_dropped :
    (parse "let 5; !(a + 12)").diagnostics = [.expected .identifier ⟨.int, "5", 1, 5⟩] ∧
    (Node.integer ⟨.int, "12", 1, 14⟩ (.number 12)).IsIn
      (parse "let 5; !(a + 12)").program.toNode ∧
    (Node.integer ⟨.int, "12", 1, 14⟩ (.number 12)).WellFormed ∧
    ⟨.int, "12", 1, 14⟩ ∈ tokenize "let 5; !(a + 12)" := by
  have hprogram : (parse "let 5; !(a + 12)").program.statements =
      [.expressionStatement ⟨.bang, "!", 1, 8⟩ (.unary ⟨.bang, "!", 1, 8⟩ "!"
        (.binary ⟨.plus, "+", 1, 12⟩ (.identifier ⟨.identifier, "a", 1, 10⟩ "a") "+"
          (.integer ⟨.int, "12", 1, 14⟩ (.number 12))))] := by
    rfl
  have hin : (Node.integer ⟨.int, "12", 1, 14⟩ (.number 12)).IsIn
      (parse "let 5; !(a + 12)").program.toNode := by
    rw [Program.toNode, hprogram]
    exact .child List.mem_cons_self (.child List.mem_cons_self (.child List.mem_cons_self
      (.child (List.mem_cons_of_mem _ List.mem_cons_self) .self)))
  obtain ⟨hformed, htoken⟩ := parse_wellFormed "let 5; !(a + 12)" _ hin
  refine ⟨by decide +kernel, hin, hformed, ?_⟩
  rcases htoken with hroot | ⟨t, ht, hof⟩
  · cases hroot
  · obtain rfl := Option.some.inj hof
    exact ht

end MonkeySyntax
