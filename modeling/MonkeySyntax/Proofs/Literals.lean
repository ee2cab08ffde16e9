import MonkeySyntax.Proofs.Spelling
import MonkeySyntax.Tree.Rendering
import MonkeySyntax.Tree.Sameness

/-!
# What rendering takes from the tokens

Trees that are the same may be rendered differently: a number is rendered as it was written, and
sameness asks for its value only. Numbers, truth values, strings and the words that begin a form are
all that rendering takes from the tokens of a tree (`Node.literals`). Trees that are the same, and
agree in these literals, are rendered alike (`Node.render_eq_of_same`).

The literals can be read off any spelling of the tree (`Spells.literals_eq`). So they are the same
for all trees that one sequence of tokens spells.
-/

namespace MonkeySyntax

namespace Node

mutual

/-- The literals that rendering takes from the tokens of a tree, from left to right. -/
def literals : Node → List String
  | bare .. | text _ | identifier .. => []
  | integer t _ | boolean t _ | string t _ => [t.literal]
  | program statements => literalsEach statements
  | array _ elements => literalsEach elements
  | unary _ _ right => right.literals
  | binary _ left _ right => left.literals ++ right.literals
  | conditional _ condition consequence none => condition.literals ++ consequence.literals
  | conditional _ condition consequence (some alternative) =>
    condition.literals ++ (consequence.literals ++ alternative.literals)
  | function t parameters body => t.literal :: (literalsEach parameters ++ body.literals)
  | call _ callee arguments => callee.literals ++ literalsEach arguments
  | letStatement t name value => t.literal :: (name.literals ++ value.literals)
  | returnStatement t value => t.literal :: value.literals
  | expressionStatement _ expression => expression.literals
  | block _ statements => literalsEach statements

/-- The literals of several trees. -/
def literalsEach : List Node → List String
  | [] => []
  | n :: ns => n.literals ++ literalsEach ns

end

@[simp] theorem literalsEach_nil : literalsEach [] = [] := rfl

@[simp] theorem literalsEach_cons (n : Node) (ns : List Node) :
    literalsEach (n :: ns) = n.literals ++ literalsEach ns := rfl

mutual

/-- Trees that are the same have equally many literals. So where lists of literals begin with those
of the trees, what follows agrees if the lists do. -/
theorem render_eq_of_append {m n : Node} (h : m.same n = true) {xs ys : List String}
    (hl : m.literals ++ xs = n.literals ++ ys) : m.render = n.render ∧ xs = ys := by
  cases m with
  | bare => cases n <;> first | exact absurd h Bool.false_ne_true | exact ⟨rfl, hl⟩
  | text value =>
    cases n <;> first | exact absurd h Bool.false_ne_true | skip
    obtain rfl := eq_of_beq h
    exact ⟨rfl, hl⟩
  | identifier t name =>
    cases n <;> first | exact absurd h Bool.false_ne_true | skip
    obtain rfl := eq_of_beq h
    exact ⟨rfl, hl⟩
  -- Of a literal the notation is rendered, and the values that sameness compares are not needed.
  | integer =>
    cases n <;> first | exact absurd h Bool.false_ne_true | exact List.cons.inj hl
  | boolean =>
    cases n <;> first | exact absurd h Bool.false_ne_true | exact List.cons.inj hl
  | string =>
    cases n <;> first | exact absurd h Bool.false_ne_true | exact List.cons.inj hl
  | program ms =>
    cases n <;> first | exact absurd h Bool.false_ne_true | skip
    obtain ⟨hms, hl⟩ := renderEach_eq_of_append h hl
    exact ⟨by rw [render, render, hms], hl⟩
  | array t ms =>
    cases n <;> first | exact absurd h Bool.false_ne_true | skip
    obtain ⟨hms, hl⟩ := renderEach_eq_of_append h hl
    exact ⟨by rw [render, render, hms], hl⟩
  | block t ms =>
    cases n <;> first | exact absurd h Bool.false_ne_true | skip
    obtain ⟨hms, hl⟩ := renderEach_eq_of_append h hl
    exact ⟨by rw [render, render, hms], hl⟩
  | unary t operator right =>
    cases n <;> first | exact absurd h Bool.false_ne_true | skip
    rw [same_unary, Bool.and_eq_true] at h
    obtain ⟨hright, hl⟩ := render_eq_of_append h.2 hl
    exact ⟨by rw [render, render, eq_of_beq h.1, hright], hl⟩
  -- The parts of a form take their literals off the list one after the other.
  | binary t left operator right =>
    cases n <;> first | exact absurd h Bool.false_ne_true | skip
    simp only [same_binary, Bool.and_eq_true] at h
    simp only [literals, List.append_assoc] at hl
    obtain ⟨hleft, hl⟩ := render_eq_of_append h.1.1 hl
    obtain ⟨hright, hl⟩ := render_eq_of_append h.2 hl
    exact ⟨by rw [render, render, hleft, eq_of_beq h.1.2, hright], hl⟩
  | conditional t condition consequence alternative =>
    cases alternative with
    | none =>
      cases n <;> first | exact absurd h Bool.false_ne_true | skip
      next alternative' =>
      cases alternative' <;> first | exact absurd h Bool.false_ne_true | skip
      simp only [same_conditional_none, Bool.and_eq_true] at h
      simp only [literals, List.append_assoc] at hl
      obtain ⟨hcondition, hl⟩ := render_eq_of_append h.1 hl
      obtain ⟨hconsequence, hl⟩ := render_eq_of_append h.2 hl
      exact ⟨by rw [render, render, hcondition, hconsequence], hl⟩
    | some alternative =>
      cases n <;> first | exact absurd h Bool.false_ne_true | skip
      next alternative' =>
      cases alternative' <;> first | exact absurd h Bool.false_ne_true | skip
      simp only [same_conditional_some, Bool.and_eq_true] at h
      simp only [literals, List.append_assoc] at hl
      obtain ⟨hcondition, hl⟩ := render_eq_of_append h.1.1 hl
      obtain ⟨hconsequence, hl⟩ := render_eq_of_append h.1.2 hl
      obtain ⟨halternative, hl⟩ := render_eq_of_append h.2 hl
      exact ⟨by rw [render, render, hcondition, hconsequence, halternative], hl⟩
  | function t parameters body =>
    cases n <;> first | exact absurd h Bool.false_ne_true | skip
    rw [same_function, Bool.and_eq_true] at h
    simp only [literals, List.cons_append, List.append_assoc, List.cons.injEq] at hl
    obtain ⟨hparameters, htail⟩ := renderEach_eq_of_append h.1 hl.2
    obtain ⟨hbody, htail⟩ := render_eq_of_append h.2 htail
    exact ⟨by rw [render, render, hl.1, hparameters, hbody], htail⟩
  | call t callee arguments =>
    cases n <;> first | exact absurd h Bool.false_ne_true | skip
    rw [same_call, Bool.and_eq_true] at h
    simp only [literals, List.append_assoc] at hl
    obtain ⟨hcallee, hl⟩ := render_eq_of_append h.1 hl
    obtain ⟨harguments, hl⟩ := renderEach_eq_of_append h.2 hl
    exact ⟨by rw [render, render, hcallee, harguments], hl⟩
  | letStatement t name value =>
    cases n <;> first | exact absurd h Bool.false_ne_true | skip
    rw [same_letStatement, Bool.and_eq_true] at h
    simp only [literals, List.cons_append, List.append_assoc, List.cons.injEq] at hl
    obtain ⟨hname, htail⟩ := render_eq_of_append h.1 hl.2
    obtain ⟨hvalue, htail⟩ := render_eq_of_append h.2 htail
    exact ⟨by rw [render, render, hl.1, hname, hvalue], htail⟩
  | returnStatement t value =>
    cases n <;> first | exact absurd h Bool.false_ne_true | skip
    rw [same_returnStatement] at h
    simp only [literals, List.cons_append, List.cons.injEq] at hl
    obtain ⟨hvalue, htail⟩ := render_eq_of_append h hl.2
    exact ⟨by rw [render, render, hl.1, hvalue], htail⟩
  | expressionStatement t expression =>
    cases n <;> first | exact absurd h Bool.false_ne_true | skip
    rw [same_expressionStatement] at h
    rw [literals, literals] at hl
    obtain ⟨hexpression, hl⟩ := render_eq_of_append h hl
    exact ⟨by rw [render, render, hexpression], hl⟩

theorem renderEach_eq_of_append {ms ns : List Node} (h : sameEach ms ns = true)
    {xs ys : List String} (hl : literalsEach ms ++ xs = literalsEach ns ++ ys) :
    renderEach ms = renderEach ns ∧ xs = ys := by
  cases ms with
  | nil =>
    cases ns with
    | nil => exact ⟨rfl, hl⟩
    | cons n ns => exact absurd h Bool.false_ne_true
  | cons m ms =>
    cases ns with
    | nil => exact absurd h Bool.false_ne_true
    | cons n ns =>
      rw [sameEach_cons_cons, Bool.and_eq_true] at h
      rw [literalsEach_cons, literalsEach_cons, List.append_assoc, List.append_assoc] at hl
      obtain ⟨hrender, hl⟩ := render_eq_of_append h.1 hl
      obtain ⟨hrenders, hl⟩ := renderEach_eq_of_append h.2 hl
      exact ⟨by rw [renderEach, renderEach, hrender, hrenders], hl⟩

end

/-- **Same trees with the same literals are rendered alike.** -/
theorem render_eq_of_same {m n : Node} (h : m.same n = true) (hl : m.literals = n.literals) :
    m.render = n.render :=
  (render_eq_of_append h (congrArg (· ++ []) hl)).1

end Node

/-! ### The literals of a spelling -/

/-- Rendering takes the literals of tokens of this kind. -/
def TokenKind.isRendered : TokenKind → Bool
  | .int | .trueKeyword | .falseKeyword | .string | .functionKeyword | .letKeyword
  | .returnKeyword => true
  | _ => false

/-- The literals of those tokens that rendering takes literals from. -/
def renderedLiterals (ts : List Token) : List String :=
  (ts.filter fun t => t.kind.isRendered).map Token.literal

section RenderedLiterals

variable {t : Token} {ts us : List Token}

@[simp] theorem renderedLiterals_nil : renderedLiterals [] = [] := rfl

@[simp] theorem renderedLiterals_append :
    renderedLiterals (ts ++ us) = renderedLiterals ts ++ renderedLiterals us := by
  simp [renderedLiterals]

theorem renderedLiterals_cons_of_rendered (h : t.kind.isRendered = true) :
    renderedLiterals (t :: ts) = t.literal :: renderedLiterals ts := by
  simp [renderedLiterals, h]

theorem renderedLiterals_cons_of_not_rendered (h : t.kind.isRendered = false) :
    renderedLiterals (t :: ts) = renderedLiterals ts := by
  simp [renderedLiterals, h]

theorem renderedLiterals_eq_of_looksLike (h : List.Forall₂ Token.LooksLike ts us) :
    renderedLiterals ts = renderedLiterals us := by
  induction h with
  | nil => rfl
  | @cons t u ts us htu _ ih =>
    cases hk : t.kind.isRendered with
    | true =>
      rw [renderedLiterals_cons_of_rendered hk, renderedLiterals_cons_of_rendered (htu.1 ▸ hk), ih,
        htu.2]
    | false =>
      rw [renderedLiterals_cons_of_not_rendered hk,
        renderedLiterals_cons_of_not_rendered (htu.1 ▸ hk), ih]

theorem renderedLiterals_of_rightBraces (h : ∀ t ∈ ts, t.kind = .rightBrace) :
    renderedLiterals ts = [] := by
  have hnone : ts.filter (fun t => t.kind.isRendered) = [] := by
    rw [List.filter_eq_nil_iff]
    intro t ht
    rw [h t ht]
    decide
  rw [renderedLiterals, hnone]
  rfl

end RenderedLiterals

/-- The literals that rendering takes from the trees of a phrase. -/
def Phrase.literals : Phrase → List String
  | expression _ n | block n | statement n => n.literals
  | items ns | moreItems ns | names ns | moreNames ns | statements ns => Node.literalsEach ns

/-- **The literals of a phrase** stand in each of its spellings, in the same order. -/
theorem Spells.literals_eq {phrase : Phrase} {ts : List Token} (h : Spells phrase ts) :
    phrase.literals = renderedLiterals ts := by
  have htaken {t : Token} {k : TokenKind} (ht : t.kind = k) (hk : k.isRendered = true)
      (us : List Token) : renderedLiterals (t :: us) = t.literal :: renderedLiterals us :=
    renderedLiterals_cons_of_rendered (ht ▸ hk)
  have hleft {t : Token} {k : TokenKind} (ht : t.kind = k) (hk : k.isRendered = false)
      (us : List Token) : renderedLiterals (t :: us) = renderedLiterals us :=
    renderedLiterals_cons_of_not_rendered (ht ▸ hk)
  -- Each token of a form is taken or left, and the parts are covered by the induction hypotheses.
  induction h with
  | identifier hk => exact (hleft hk rfl []).symm
  | integer hk _ => exact (htaken hk rfl []).symm
  | trueLiteral hk => exact (htaken hk rfl []).symm
  | falseLiteral hk => exact (htaken hk rfl []).symm
  | string hk => exact (htaken hk rfl []).symm
  | @unary _ t _ _ _ hk _ ih =>
    have hnot : t.kind.isRendered = false := by rcases hk with hk | hk <;> rw [hk] <;> rfl
    rw [renderedLiterals_cons_of_not_rendered hnot]
    exact ih
  | @binary _ t _ _ _ _ _ hk _ _ ihl ihr =>
    have hnot : t.kind.isRendered = false := by
      revert hk
      cases t.kind <;> decide
    rw [renderedLiterals_append, renderedLiterals_cons_of_not_rendered hnot, ← ihl, ← ihr]
    rfl
  | call _ hk _ _ hc ihf ihargs =>
    rw [renderedLiterals_append, hleft hk rfl, renderedLiterals_append, hleft hc rfl, ← ihf,
      ← ihargs]
    exact congrArg _ (List.append_nil _).symm
  | grouped ho _ hc ih =>
    rw [hleft ho rfl, renderedLiterals_append, hleft hc rfl, ← ih]
    exact (List.append_nil _).symm
  | array hk _ hc ih =>
    rw [hleft hk rfl, renderedLiterals_append, hleft hc rfl, ← ih]
    exact (List.append_nil _).symm
  | conditional hk ho _ hc _ ihc ihb =>
    rw [hleft hk rfl, hleft ho rfl, renderedLiterals_append, hleft hc rfl, ← ihc, ← ihb]
    rfl
  | conditionalElse hk ho _ hc _ hels _ ihc ihb iha =>
    rw [hleft hk rfl, hleft ho rfl, renderedLiterals_append, hleft hc rfl, renderedLiterals_append,
      hleft hels rfl, ← ihc, ← ihb, ← iha]
    rfl
  | function hk ho _ hc _ ihns ihb =>
    rw [htaken hk rfl, hleft ho rfl, renderedLiterals_append, hleft hc rfl, ← ihns, ← ihb]
    rfl
  | noItems => rfl
  | items _ _ ihe ihes =>
    rw [renderedLiterals_append, ← ihe, ← ihes]
    rfl
  | noMoreItems => rfl
  | moreItems hk _ _ ihe ihes =>
    rw [hleft hk rfl, renderedLiterals_append, ← ihe, ← ihes]
    rfl
  | noNames => rfl
  | names hk _ ih =>
    rw [hleft hk rfl, ← ih]
    rfl
  | noMoreNames => rfl
  | moreNames hc hk _ ih =>
    rw [hleft hc rfl, hleft hk rfl, ← ih]
    rfl
  | block hk _ hc ih =>
    rw [hleft hk rfl, renderedLiterals_append, hleft hc rfl, ← ih]
    exact (List.append_nil _).symm
  | letStatement hk hn ha _ ih =>
    rw [htaken hk rfl, hleft hn rfl, hleft ha rfl, ← ih]
    rfl
  | returnStatement hk _ ih =>
    rw [htaken hk rfl, ← ih]
    rfl
  | expressionStatement _ ih => exact ih
  | noStatements => rfl
  | terminated _ hk _ ihs ihss =>
    rw [renderedLiterals_append, hleft hk rfl, ← ihs, ← ihss]
    rfl
  | unterminated _ _ _ ihs ihss =>
    rw [renderedLiterals_append, ← ihs, ← ihss]
    rfl

end MonkeySyntax
