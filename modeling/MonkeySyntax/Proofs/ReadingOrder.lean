import Mathlib.Data.List.Basic
import MonkeySyntax.Proofs.Spelling

/-!
# The tokens of a tree in reading order

A tree keeps some of the tokens that it was read from. Listed in the order of reading
(`Node.listed`), they are a selection of the tokens that were there: parentheses, commas and
semicolons are left out, and whatever belongs to a statement that was dropped. `Node.Drawn` says that
trees stand for a sequence of tokens in this way, where any token may be passed over. It is much
weaker than a spelling, as it has to cover what is left of texts with mistakes.

Two things can be read off. The listed tokens are a subsequence (`Node.Drawn.listed_sublist`). And in
every sequence of statements, at any depth, the token of a statement stands behind all that the
statements before it list, and not behind anything that the statement lists itself
(`Node.Drawn.ordered`).
-/

namespace MonkeySyntax

namespace Node

/-! ### Tokens in reading order -/

mutual

/-- The tokens of a tree in the order of reading. An operator stands between its operands, and the
parenthesis of a call behind what is called; otherwise a node's token comes first. An expression in
the place of a statement has no token besides those of the expression. -/
def listed : Node → List Token
  | text _ => []
  | bare _ t | identifier t _ | integer t _ | boolean t _ | string t _ => [t]
  | program statements => listedEach statements
  | array t elements => t :: listedEach elements
  | unary t _ right => t :: right.listed
  | binary t left _ right => left.listed ++ t :: right.listed
  | conditional t condition consequence none => t :: (condition.listed ++ consequence.listed)
  | conditional t condition consequence (some alternative) =>
    t :: (condition.listed ++ (consequence.listed ++ alternative.listed))
  | function t parameters body => t :: (listedEach parameters ++ body.listed)
  | call t callee arguments => callee.listed ++ t :: listedEach arguments
  | letStatement t name value => t :: (name.listed ++ value.listed)
  | returnStatement t value => t :: value.listed
  | expressionStatement _ expression => expression.listed
  | block t statements => t :: listedEach statements

/-- The tokens of several trees, one after the other. -/
def listedEach : List Node → List Token
  | [] => []
  | n :: ns => n.listed ++ listedEach ns

end

@[simp] theorem listedEach_nil : listedEach [] = [] := rfl

@[simp] theorem listedEach_cons (n : Node) (ns : List Node) :
    listedEach (n :: ns) = n.listed ++ listedEach ns := rfl

@[simp] theorem listedEach_append (ms ns : List Node) :
    listedEach (ms ++ ns) = listedEach ms ++ listedEach ns := by
  induction ms with
  | nil => rfl
  | cons m ms ih => rw [List.cons_append, listedEach_cons, ih, listedEach_cons, List.append_assoc]

theorem listedEach_singleton (n : Node) : listedEach [n] = n.listed := by
  rw [listedEach_cons, listedEach_nil, List.append_nil]

/-! ### Kinds of nodes -/

/-- The sequence of statements that the node consists of, if it is a program or a block. -/
def statements : Node → List Node
  | program statements | block _ statements => statements
  | _ => []

/-- The node is a statement. -/
def isStatement : Node → Bool
  | letStatement .. | returnStatement .. | expressionStatement .. => true
  | _ => false

/-- The node is a name. -/
def isName : Node → Bool
  | identifier .. => true
  | _ => false

/-- The node is a block. -/
def isBlock : Node → Bool
  | block .. => true
  | _ => false

/-! ### What trees are made from -/

/-- The node has a token of its own that is listed before all others. -/
def beginsWithToken : Node → Bool
  | bare .. | text _ | program _ | binary .. | call .. | expressionStatement .. => false
  | _ => true

/-- The node has a token of its own that is listed behind the first node below it. -/
def hasTokenWithin : Node → Bool
  | binary .. | call .. => true
  | _ => false

/-- The node goes with its token, and the nodes below it are such as belong there. -/
def WellMade : Node → Prop
  | bare .. | text _ | program _ => False
  | identifier t name => t.kind = .identifier ∧ name = t.literal
  | integer t (.number value) => t.kind = .int ∧ Numeral.value? t.literal = some value
  | integer _ (.truth _) => False
  | boolean t value =>
    t.kind = .trueKeyword ∧ value = true ∨ t.kind = .falseKeyword ∧ value = false
  | string t value => t.kind = .string ∧ value = t.literal
  | array t _ => t.kind = .leftBracket
  | unary t operator _ => t.kind.IsUnary ∧ operator = t.literal
  | binary t _ operator _ => t.kind.IsBinary ∧ operator = t.literal
  | conditional t _ consequence alternative =>
    t.kind = .ifKeyword ∧ consequence.isBlock = true ∧ ∀ b ∈ alternative, b.isBlock = true
  | function t parameters body =>
    t.kind = .functionKeyword ∧ (∀ n ∈ parameters, n.isName = true) ∧ body.isBlock = true
  | call t _ _ => t.kind = .leftParen
  | letStatement t name _ => t.kind = .letKeyword ∧ name.isName = true
  | returnStatement t _ => t.kind = .returnKeyword
  | expressionStatement _ _ => True
  | block t statements => t.kind = .leftBrace ∧ ∀ s ∈ statements, s.isStatement = true

/-- The trees have been read from the tokens, of which some have been passed over. -/
inductive Drawn : List Node → List Token → Prop where
  | nil : Drawn [] []
  | pass (t : Token) : Drawn [] [t]
  | append {ms ns : List Node} {ts us : List Token} : Drawn ms ts → Drawn ns us →
      Drawn (ms ++ ns) (ts ++ us)
  | first {n : Node} {t : Token} {ts : List Token} : n.WellMade → n.beginsWithToken = true →
      n.token? = some t → Drawn n.children ts → Drawn [n] (t :: ts)
  | within {n m : Node} {ns : List Node} {t : Token} {ts us : List Token} : n.WellMade →
      n.hasTokenWithin = true → n.token? = some t → n.children = m :: ns → Drawn [m] ts →
      Drawn ns us → Drawn [n] (ts ++ t :: us)
  /-- The token of such a statement is the first one of the expression, listed or not. -/
  | expressionStatement {t : Token} {e : Node} {ts : List Token} : Drawn [e] (t :: ts) →
      Drawn [.expressionStatement t e] (t :: ts)

namespace Drawn

variable {ms ns : List Node} {ts us : List Token}

/-- No tree is made from nothing. -/
theorem ne_nil (h : Drawn ns ts) : ns ≠ [] → ts ≠ [] := by
  induction h with
  | nil => exact fun hns => absurd rfl hns
  | pass t => exact fun _ => List.cons_ne_nil _ _
  | append _ _ ihm ihn =>
    intro hns hts
    obtain ⟨hts, hus⟩ := List.append_eq_nil_iff.1 hts
    -- One of the two lists has a tree in it.
    rcases not_and_or.1 (fun hboth => hns (List.append_eq_nil_iff.2 hboth)) with hm | hn
    · exact ihm hm hts
    · exact ihn hn hus
  | first => exact fun _ => List.cons_ne_nil _ _
  | within => exact fun _ => by simp
  | expressionStatement => exact fun _ => List.cons_ne_nil _ _

theorem listed_of_first {n : Node} {t : Token} (h : n.beginsWithToken = true)
    (ht : n.token? = some t) : n.listed = t :: listedEach n.children := by
  cases n with
  | bare | text | program | binary | call | expressionStatement => cases h
  | identifier | integer | boolean | string | array | block =>
    obtain rfl := Option.some.inj ht
    rfl
  | conditional _ _ _ alternative =>
    obtain rfl := Option.some.inj ht
    cases alternative <;> simp [listed, children]
  | unary | function | letStatement | returnStatement =>
    obtain rfl := Option.some.inj ht
    simp [listed, children]

theorem listed_of_within {n m : Node} {t : Token} (h : n.hasTokenWithin = true)
    (ht : n.token? = some t) (hc : n.children = m :: ns) :
    n.listed = m.listed ++ t :: listedEach ns := by
  cases n with
  | binary =>
    obtain rfl := Option.some.inj ht
    obtain ⟨rfl, rfl⟩ := List.cons.inj hc
    rw [listed, listedEach_singleton]
  | call =>
    obtain rfl := Option.some.inj ht
    obtain ⟨rfl, rfl⟩ := List.cons.inj hc
    rfl
  | _ => cases h

/-- **The listed tokens are a subsequence** of those that the trees were read from. -/
theorem listed_sublist (h : Drawn ns ts) : (listedEach ns).Sublist ts := by
  induction h with
  | nil => exact .slnil
  | pass t => exact List.nil_sublist _
  | append _ _ ihm ihn =>
    rw [listedEach_append]
    exact ihm.append ihn
  | first _ hfirst ht _ ih =>
    rw [listedEach_singleton, listed_of_first hfirst ht]
    exact ih.cons_cons _
  | within _ hwithin ht hc _ _ ihm ihns =>
    rw [listedEach_singleton] at ihm ⊢
    rw [listed_of_within hwithin ht hc]
    exact ihm.append (ihns.cons_cons _)
  | expressionStatement _ ih =>
    rw [listedEach_singleton] at ih ⊢
    exact ih

/-- Trees one behind the other are read from tokens one behind the other. -/
theorem split (h : Drawn ns ts) : ∀ {ms ms' : List Node}, ns = ms ++ ms' →
    ∃ us us', ts = us ++ us' ∧ Drawn ms us ∧ Drawn ms' us' := by
  -- A single tree stands on one of the two sides.
  have hone {n : Node} {ts : List Token} (h : Drawn [n] ts) {ms ms' : List Node}
      (heq : [n] = ms ++ ms') : ∃ us us', ts = us ++ us' ∧ Drawn ms us ∧ Drawn ms' us' := by
    rcases List.append_eq_singleton_iff.1 heq.symm with ⟨rfl, rfl⟩ | ⟨rfl, rfl⟩
    · exact ⟨[], ts, rfl, .nil, h⟩
    · exact ⟨ts, [], (List.append_nil ts).symm, h, .nil⟩
  induction h with
  | nil =>
    intro ms ms' heq
    obtain ⟨rfl, rfl⟩ := List.append_eq_nil_iff.1 heq.symm
    exact ⟨[], [], rfl, .nil, .nil⟩
  | pass t =>
    intro ms ms' heq
    obtain ⟨rfl, rfl⟩ := List.append_eq_nil_iff.1 heq.symm
    exact ⟨[t], [], rfl, .pass t, .nil⟩
  | append hm hn ihm ihn =>
    intro ms ms' heq
    rcases List.append_eq_append_iff.1 heq with ⟨xs, rfl, hxs⟩ | ⟨xs, hxs, rfl⟩
    · obtain ⟨us, us', rfl, hus, hus'⟩ := ihn hxs
      exact ⟨_, us', (List.append_assoc ..).symm, hm.append hus, hus'⟩
    · obtain ⟨us, us', rfl, hus, hus'⟩ := ihm hxs
      exact ⟨us, _, List.append_assoc .., hus, hus'.append hn⟩
  | first hmade hfirst ht hn => exact hone (.first hmade hfirst ht hn)
  | within hmade hwithin ht hc hm hns => exact hone (.within hmade hwithin ht hc hm hns)
  | expressionStatement he => exact hone (.expressionStatement he)

/-- The token of a statement was there, and what the statement lists was not before it. -/
theorem exists_token {s : Node} (hs : s.isStatement = true) (h : Drawn ns ts) : ns = [s] →
    ∃ t front behind, s.token? = some t ∧ ts = front ++ t :: behind ∧
      s.listed.Sublist (t :: behind) := by
  induction h with
  | nil => exact fun heq => absurd heq.symm (List.cons_ne_nil _ _)
  | pass t => exact fun heq => absurd heq.symm (List.cons_ne_nil _ _)
  | @append _ _ ts us _ _ ihm ihn =>
    intro heq
    -- The statement is on one side, and nothing but tokens passed over on the other.
    rcases List.append_eq_singleton_iff.1 heq with ⟨rfl, hn⟩ | ⟨hm, rfl⟩
    · obtain ⟨t, front, behind, ht, rfl, hlisted⟩ := ihn hn
      exact ⟨t, ts ++ front, behind, ht, (List.append_assoc ..).symm, hlisted⟩
    · obtain ⟨t, front, behind, ht, rfl, hlisted⟩ := ihm hm
      refine ⟨t, front, behind ++ us, ht, List.append_assoc .., ?_⟩
      exact hlisted.trans (List.sublist_append_left (t :: behind) us)
  | first hmade hfirst ht hn =>
    intro heq
    obtain rfl := List.singleton_inj.1 heq
    have hlisted := (Drawn.first hmade hfirst ht hn).listed_sublist
    rw [listedEach_singleton] at hlisted
    exact ⟨_, [], _, ht, rfl, hlisted⟩
  | @within n _ _ _ _ _ _ hwithin =>
    -- Neither an operation nor a call is a statement.
    intro heq
    obtain rfl := List.singleton_inj.1 heq
    cases n with
    | binary | call => cases hs
    | _ => cases hwithin
  | expressionStatement he =>
    intro heq
    obtain rfl := List.singleton_inj.1 heq
    have hlisted := he.listed_sublist
    rw [listedEach_singleton] at hlisted
    exact ⟨_, [], _, rfl, rfl, hlisted⟩

end Drawn

/-! ### Statements one behind the other -/

/-- In the sequence of statements that the node consists of, each statement has its token among the
given ones: behind all that the statements before it list, and not behind what it lists itself. -/
def Ordered (ts : List Token) (n : Node) : Prop :=
  ∀ before s after, n.statements = before ++ s :: after →
    ∃ t front behind, s.token? = some t ∧ ts = front ++ t :: behind ∧
      (listedEach before).Sublist front ∧ s.listed.Sublist (t :: behind)

variable {ts : List Token}

/-- The order is kept when more tokens stand before the given ones. -/
theorem Ordered.behind {n : Node} (h : n.Ordered ts) (us : List Token) : n.Ordered (us ++ ts) := by
  intro before s after hsplit
  obtain ⟨t, front, behind, ht, rfl, hbefore, hlisted⟩ := h before s after hsplit
  refine ⟨t, us ++ front, behind, ht, (List.append_assoc ..).symm, ?_, hlisted⟩
  exact hbefore.trans (List.sublist_append_right us front)

/-- The order is kept when more tokens stand behind the given ones. -/
theorem Ordered.before {n : Node} (h : n.Ordered ts) (us : List Token) : n.Ordered (ts ++ us) := by
  intro before s after hsplit
  obtain ⟨t, front, behind, ht, rfl, hbefore, hlisted⟩ := h before s after hsplit
  refine ⟨t, front, behind ++ us, ht, List.append_assoc .., hbefore, ?_⟩
  exact hlisted.trans (List.sublist_append_left (t :: behind) us)

theorem ordered_of_statements_nil {n : Node} (h : n.statements = []) : n.Ordered ts := by
  intro before s after hsplit
  rw [h] at hsplit
  cases before <;> cases hsplit

/-- A sequence of statements that has been read from the tokens is in order. -/
theorem Drawn.ordered_statements {n : Node} (h : Drawn n.statements ts)
    (hs : ∀ s ∈ n.statements, s.isStatement = true) : n.Ordered ts := by
  intro before s after hsplit
  obtain ⟨us, vs, rfl, hbefore, hrest⟩ := h.split hsplit
  obtain ⟨ws, xs, rfl, hthis, -⟩ := hrest.split (List.singleton_append (x := s)).symm
  obtain ⟨t, front, behind, ht, rfl, hlisted⟩ :=
    Drawn.exists_token (hs s (by simp [hsplit])) hthis rfl
  refine ⟨t, us ++ front, behind ++ xs, ht, by simp, ?_, ?_⟩
  · exact hbefore.listed_sublist.trans (List.sublist_append_left us front)
  · exact hlisted.trans (List.sublist_append_left (t :: behind) xs)

/-- Among the nodes that begin with their token, only blocks have statements. -/
theorem Drawn.ordered_first {n : Node} (hmade : n.WellMade) (hfirst : n.beginsWithToken = true)
    (h : Drawn n.children ts) : n.Ordered ts := by
  cases n with
  | block t statements =>
    have hstatements : Drawn (block t statements).statements ts := h
    exact hstatements.ordered_statements hmade.2
  | program => cases hfirst
  | _ => exact ordered_of_statements_nil rfl

/-- **Statements stand in order**, at any depth of trees that have been read from tokens. -/
theorem Drawn.ordered {ns : List Node} (h : Drawn ns ts) :
    ∀ m ∈ ns, ∀ n : Node, n.IsIn m → n.Ordered ts := by
  induction h with
  | nil => exact fun m hm => absurd hm List.not_mem_nil
  | pass t => exact fun m hm => absurd hm List.not_mem_nil
  | append _ _ ihm ihn =>
    intro m hm n hn
    rcases List.mem_append.1 hm with hm | hm
    · exact (ihm m hm n hn).before _
    · exact (ihn m hm n hn).behind _
  | @first _ t _ hmade hfirst _ hn ih =>
    intro m hm
    obtain rfl := List.mem_singleton.1 hm
    apply forall_isIn
    · exact (hn.ordered_first hmade hfirst).behind [t]
    · exact fun c hc n hn => (ih c hc n hn).behind [t]
  | @within _ _ _ t _ _ _ hwithin _ hchildren _ _ ihfirst ihrest =>
    intro m hm
    obtain rfl := List.mem_singleton.1 hm
    have hstatements : m.statements = [] := by
      cases m <;> first | rfl | cases hwithin
    refine forall_isIn (ordered_of_statements_nil hstatements) fun c hc n hn => ?_
    -- The node is below the first child, before the token, or below another one, behind it.
    rw [hchildren] at hc
    rcases List.mem_cons.1 hc with rfl | hc
    · exact (ihfirst c List.mem_cons_self n hn).before _
    · exact ((ihrest c hc n hn).behind [t]).behind _
  | expressionStatement _ ih =>
    intro m hm
    obtain rfl := List.mem_singleton.1 hm
    exact forall_isIn (ordered_of_statements_nil rfl) ih

end Node

end MonkeySyntax
