import MonkeySyntax.Proofs.Literals
import MonkeySyntax.Proofs.Printing
import MonkeySyntax.Proofs.SelfDelimiting
import MonkeySyntax.Proofs.Spelling.Completeness
import MonkeySyntax.Proofs.Spelling.Soundness

/-!
# Rendering and reading back

The canonical text of a program that is made of names, numbers, truth values, arrays, operators and
calls is read back as the same program. Two halves meet at the layout of a tree (`Node.layout`), the
list of the tokens and blanks that its canonical text consists of. The text of the layout is the
canonical text, and its tokens spell the tree; both are shown together, along the tokens that the
tree was read from (`lays_of_spells`).

In the canonical text every operation stands in parentheses. So the layout of an expression spells
it against every floor, and where it ends, a parenthesis, a bracket, a comma, a semicolon or a blank
follows, which no token takes in.
-/

namespace MonkeySyntax

open Mark (token blank)

/-! ### Layouts of trees -/

/-- No token takes in the character. -/
def Neutral (d : Char) : Prop :=
  ∀ k : TokenKind, k.takes d = false

namespace Node

mutual

/-- Names, numbers, truth values, arrays, operators and calls. -/
def isOperational : Node → Bool
  | identifier .. | integer .. | boolean .. => true
  | array _ elements => allOperational elements
  | unary _ _ right => right.isOperational
  | binary _ left _ right => left.isOperational && right.isOperational
  | call _ callee arguments => callee.isOperational && allOperational arguments
  | _ => false

/-- Expressions of this kind only. -/
def allOperational : List Node → Bool
  | [] => true
  | e :: es => e.isOperational && allOperational es

end

mutual

/-- The layout of an expression. -/
def layout : Node → List Mark
  | identifier t _ | integer t _ | boolean t _ => [token t]
  | array t elements => token t :: (itemsLayout elements ++ [token TokenKind.rightBracket.sign])
  | unary t _ right =>
    token TokenKind.leftParen.sign :: token t ::
      (right.layout ++ [token TokenKind.rightParen.sign])
  | binary t left _ right =>
    token TokenKind.leftParen.sign :: (left.layout ++ blank ' ' :: token t :: blank ' ' ::
      (right.layout ++ [token TokenKind.rightParen.sign]))
  | call t callee arguments =>
    callee.layout ++ token t :: (itemsLayout arguments ++ [token TokenKind.rightParen.sign])
  | _ => []

/-- The layout of expressions with commas between them. -/
def itemsLayout : List Node → List Mark
  | [] => []
  | e :: es => e.layout ++ moreItemsLayout es

/-- The layout of expressions with a comma before each. -/
def moreItemsLayout : List Node → List Mark
  | [] => []
  | e :: es => token TokenKind.comma.sign :: blank ' ' :: (e.layout ++ moreItemsLayout es)

end

/-- The layout of a statement, with its semicolon if it has one. -/
def statementLayout : Node → List Mark
  | letStatement t name value =>
    token t :: blank ' ' :: (name.layout ++ blank ' ' :: token TokenKind.assign.sign :: blank ' ' ::
      (value.layout ++ [token TokenKind.semicolon.sign]))
  | returnStatement t value =>
    token t :: blank ' ' :: (value.layout ++ [token TokenKind.semicolon.sign])
  | expressionStatement _ expression => expression.layout
  | _ => []

/-- The statement is rendered with a semicolon. -/
def isTerminated : Node → Bool
  | letStatement .. | returnStatement .. => true
  | _ => false

/-- The expression of the statement is of this kind. -/
def isPlain : Node → Bool
  | letStatement _ _ value | returnStatement _ value => value.isOperational
  | expressionStatement _ expression => expression.isOperational
  | _ => false

/-- Any number of assignments and returns, and at most one expression behind them, all of this
kind. -/
def isSequence (ss : List Node) : Bool :=
  ss.all isPlain && ss.dropLast.all isTerminated

end Node

/-! ### What layouts are good for -/

theorem neutral_of_mem {d : Char} (h : d ∈ [' ', '(', ')', ']', ',', ';']) : Neutral d := by
  intro k
  simp only [List.mem_cons, List.not_mem_nil, or_false] at h
  rcases h with rfl | rfl | rfl | rfl | rfl | rfl <;> cases k <;> rfl

namespace Node

/-- The layout of an expression does what it is there for. -/
structure Laid (e : Node) : Prop where
  text_eq : Mark.text e.layout = e.render.toList
  spells : ∀ floor ≤ Level.call.power, Spells (.expression floor e) (Mark.tokens e.layout)
  fits : ∀ z : List Char, (∀ d ∈ z.head?, Neutral d) → Mark.Fits e.layout z
  /-- The expression does not begin with an equality sign, so it can stand right behind `!`. -/
  head : ∃ d cs, Mark.text e.layout = d :: cs ∧ d ≠ '='

end Node

section Tokens

open Scanner

variable {t : Token}

/-- What begins with an equality sign is an operator. -/
theorem Token.Lexical.head_ne (h : t.Lexical) (hs : t.kind ≠ .string) (ha : t.kind ≠ .assign)
    (he : t.kind ≠ .equal) : ∃ d cs, t.text = d :: cs ∧ d ≠ '=' := by
  obtain ⟨c, rest, -, hk, hl⟩ := h
  rw [Token.text_of_ne_string hs, ← hl]
  rw [← hk] at hs ha he
  have hshape := Lexeme.shape_ofChars c rest
  generalize Lexeme.ofChars c rest = l at hs ha he hshape ⊢
  cases hshape with
  | word hletter => exact ⟨c, _, rfl, by rintro rfl; cases hletter⟩
  | number _ hdigit => exact ⟨c, _, rfl, by rintro rfl; cases hdigit⟩
  | equal => exact absurd rfl he
  | notEqual => exact ⟨'!', _, rfl, by decide⟩
  | symbol _ _ _ hkind =>
    refine ⟨c, _, rfl, ?_⟩
    rintro rfl
    exact ha (Option.some.inj hkind).symm
  | string => exact absurd rfl hs
  | illegal _ _ hsymbol _ => exact ⟨c, _, rfl, by rintro rfl; cases hsymbol⟩

/-- A delimiter or an operator of one character is spelled by its character. -/
theorem Token.Lexical.text_of_symbol (h : t.Lexical) {d : Char} (hd : (d, t.kind) ∈ symbols) :
    t.text = [d] := by
  have hother : ∀ entry ∈ symbols, entry.2 ≠ .int ∧ entry.2 ≠ .equal ∧ entry.2 ≠ .notEqual ∧
      entry.2 ≠ .illegal ∧ entry.2 ≠ .string ∧ entry.2 ≠ .identifier ∧
      ∀ word ∈ keywords, word.2 ≠ entry.2 := by
    decide
  obtain ⟨hint, hequal, hnotEqual, hillegal, hstring, hidentifier, hkeyword⟩ := hother _ hd
  obtain ⟨c, rest, -, hk, hl⟩ := h
  rw [Token.text_of_ne_string hstring, ← hl]
  have hshape := Lexeme.shape_ofChars c rest
  generalize Lexeme.ofChars c rest = l at hk hshape ⊢
  cases hshape with
  | word =>
    -- A word is a keyword or an identifier.
    rcases TokenKind.ofWord_eq (String.ofList (c :: rest.takeWhile isWordChar)) with hw | hw
    · exact absurd hk (hkeyword _ hw)
    · exact absurd (hk.symm.trans hw) hidentifier
  | number => exact absurd hk.symm hint
  | equal => exact absurd hk.symm hequal
  | notEqual => exact absurd hk.symm hnotEqual
  | symbol _ _ _ hkind =>
    have hunique : ∀ entry ∈ symbols, ∀ other ∈ symbols, entry.2 = other.2 → entry.1 = other.1 := by
      decide
    have hc : c = d := hunique _ (TokenKind.mem_symbols hkind) _ hd hk
    rw [hc]
    rfl
  | string => exact absurd hk.symm hstring
  | illegal => exact absurd hk.symm hillegal

end Tokens

/-! ### Expressions -/

namespace Node

theorem Laid.neutral_head {d : Char} (h : d ∈ [' ', '(', ')', ']', ',', ';']) (cs : List Char) :
    ∀ x ∈ (d :: cs).head?, Neutral x := by
  intro x hx
  obtain rfl := Option.some.inj hx
  exact neutral_of_mem h

/-- A name, a number or a truth value is laid out as its token. -/
theorem laid_of_token {e : Node} {t : Token} (hlayout : e.layout = [token t])
    (hrender : e.render = t.literal) (ht : t.Lexical)
    (hk : t.kind ∈ [.identifier, .int, .trueKeyword, .falseKeyword])
    (hspells : ∀ floor, Spells (.expression floor e) [t]) : e.Laid := by
  have hne : t.kind ≠ .string ∧ t.kind ≠ .assign ∧ t.kind ≠ .equal := by
    revert hk
    cases t.kind <;> decide
  refine ⟨?_, ?_, fun z hz => ?_, ?_⟩
  · rw [hlayout, hrender, Mark.text_token, Mark.text_nil, List.append_nil,
      Token.text_of_ne_string hne.1]
  · rw [hlayout]
    exact fun floor _ => hspells floor
  · rw [hlayout]
    exact ⟨ht, fun d hd => hz d hd t.kind, trivial⟩
  · rw [hlayout, Mark.text_token, Mark.text_nil, List.append_nil]
    exact ht.head_ne hne.1 hne.2.1 hne.2.2

theorem laid_unary {t : Token} {right : Node} (h : right.Laid) (ht : t.Lexical)
    (hk : t.kind.IsUnary) : (unary t t.literal right).Laid := by
  have hstring : t.kind ≠ .string := by rcases hk with hk | hk <;> simp [hk]
  obtain ⟨d, cs, hhead, hd⟩ := h.head
  refine ⟨?_, fun floor _ => ?_, fun z hz => ?_, ⟨'(', _, rfl, by decide⟩⟩
  · simp only [layout, render, Mark.text_token, Mark.text_append, Mark.text_nil, h.text_eq,
      Token.text_of_ne_string hstring, String.toList_append]
    simp [TokenKind.sign, Token.text, TokenKind.display]
  · -- Whatever the floor is, the parentheses satisfy it.
    have hgroup : Spells (.expression floor (unary t t.literal right))
        (TokenKind.leftParen.sign ::
          (t :: Mark.tokens right.layout ++ [TokenKind.rightParen.sign])) :=
      .grouped rfl (.unary (Nat.zero_le _) hk (h.spells _ (by decide))) rfl
    simpa [layout] using hgroup
  · refine ⟨TokenKind.lexical_sign (by decide), fun _ _ => rfl, ht, fun x hx => ?_, ?_⟩
    · -- The operand does not begin with an equality sign.
      rw [Mark.text_append, hhead] at hx
      obtain rfl := Option.some.inj hx
      rcases hk with hk | hk
      · rw [hk]
        exact beq_false_of_ne hd
      · rw [hk]
        rfl
    · refine Mark.fits_append.2 ⟨h.fits _ (Laid.neutral_head (by decide) _), ?_⟩
      exact ⟨TokenKind.lexical_sign (by decide), fun _ _ => rfl, trivial⟩

theorem laid_binary {t : Token} {left right : Node} (hl : left.Laid) (hr : right.Laid)
    (ht : t.Lexical) (hk : t.kind.IsBinary) : (binary t left t.literal right).Laid := by
  have hstring : t.kind ≠ .string := by
    rintro heq
    rw [heq] at hk
    revert hk
    decide
  refine ⟨?_, fun floor _ => ?_, fun z hz => ?_, ⟨'(', _, rfl, by decide⟩⟩
  · simp only [layout, render, Mark.text_token, Mark.text_append, Mark.text_blank, Mark.text_nil,
      hl.text_eq, hr.text_eq, Token.text_of_ne_string hstring, String.toList_append]
    simp [TokenKind.sign, Token.text, TokenKind.display]
  · have hright : t.kind.level.power + 1 ≤ Level.call.power :=
      Nat.le_trans hk.level.2 (by decide)
    have hgroup : Spells (.expression floor (binary t left t.literal right))
        (TokenKind.leftParen.sign ::
          (Mark.tokens left.layout ++ t :: Mark.tokens right.layout ++
            [TokenKind.rightParen.sign])) :=
      .grouped rfl (.binary (Nat.zero_le _) hk (hl.spells _ t.kind.level_le_call)
        (hr.spells _ hright)) rfl
    simpa [layout] using hgroup
  · refine ⟨TokenKind.lexical_sign (by decide), fun _ _ => rfl, Mark.fits_append.2 ⟨?_, ?_⟩⟩
    · exact hl.fits _ (Laid.neutral_head (by decide) _)
    · -- The operator stands between blanks.
      refine ⟨rfl, ht, fun d hd => ?_, rfl, Mark.fits_append.2 ⟨?_, ?_⟩⟩
      · obtain rfl := Option.some.inj hd
        exact TokenKind.takes_of_isSpace rfl t.kind
      · exact hr.fits _ (Laid.neutral_head (by decide) _)
      · exact ⟨TokenKind.lexical_sign (by decide), fun _ _ => rfl, trivial⟩

/-! #### Lists -/

section Items

variable {es : List Node} (hes : ∀ e ∈ es, e.Laid)

include hes

theorem text_moreItemsLayout :
    Mark.text (moreItemsLayout es) = es.flatMap fun e => ',' :: ' ' :: e.render.toList := by
  induction es with
  | nil => rfl
  | cons e es ih =>
    have he : Mark.text e.layout = e.render.toList := (hes e (List.mem_cons_self ..)).text_eq
    have hrest := ih fun e he => hes e (List.mem_cons_of_mem _ he)
    simp only [moreItemsLayout, Mark.text_token, Mark.text_blank, Mark.text_append, he, hrest]
    simp [TokenKind.sign, Token.text, TokenKind.display]

theorem text_itemsLayout :
    Mark.text (itemsLayout es) = (", ".intercalate (es.map render)).toList := by
  cases es with
  | nil => rfl
  | cons e es =>
    rw [itemsLayout, Mark.text_append, (hes e (List.mem_cons_self ..)).text_eq,
      text_moreItemsLayout fun e he => hes e (List.mem_cons_of_mem _ he), List.map_cons,
      Text.toList_intercalate_cons, List.flatMap_map]

theorem spells_moreItemsLayout : Spells (.moreItems es) (Mark.tokens (moreItemsLayout es)) := by
  induction es with
  | nil => exact .noMoreItems
  | cons e es ih =>
    have he := (hes e (List.mem_cons_self ..)).spells 0 (Nat.zero_le _)
    have hrest := ih fun e he => hes e (List.mem_cons_of_mem _ he)
    have hmore : Spells (.moreItems (e :: es)) (TokenKind.comma.sign ::
        (Mark.tokens e.layout ++ Mark.tokens (moreItemsLayout es))) := .moreItems rfl he hrest
    simpa [moreItemsLayout] using hmore

theorem spells_itemsLayout : Spells (.items es) (Mark.tokens (itemsLayout es)) := by
  cases es with
  | nil => exact .noItems
  | cons e es =>
    have he := (hes e (List.mem_cons_self ..)).spells 0 (Nat.zero_le _)
    have hrest := spells_moreItemsLayout fun e he => hes e (List.mem_cons_of_mem _ he)
    rw [itemsLayout, Mark.tokens_append]
    exact .items he hrest

/-- Behind an item comes a comma, or what comes behind the list. -/
theorem fits_moreItemsLayout {z : List Char} (hz : ∀ d ∈ z.head?, Neutral d) :
    Mark.Fits (moreItemsLayout es) z ∧
      ∀ d ∈ (Mark.text (moreItemsLayout es) ++ z).head?, Neutral d := by
  induction es with
  | nil => exact ⟨trivial, hz⟩
  | cons e es ih =>
    obtain ⟨hfits, hhead⟩ := ih fun e he => hes e (List.mem_cons_of_mem _ he)
    refine ⟨⟨TokenKind.lexical_sign (by decide), fun _ _ => rfl, rfl,
      Mark.fits_append.2 ⟨?_, hfits⟩⟩, ?_⟩
    · exact (hes e (List.mem_cons_self ..)).fits _ hhead
    · exact Laid.neutral_head (by decide) _

theorem fits_itemsLayout {z : List Char} (hz : ∀ d ∈ z.head?, Neutral d) :
    Mark.Fits (itemsLayout es) z := by
  cases es with
  | nil => trivial
  | cons e es =>
    obtain ⟨hfits, hhead⟩ := fits_moreItemsLayout
      (fun e he => hes e (List.mem_cons_of_mem _ he)) hz
    exact Mark.fits_append.2 ⟨(hes e (List.mem_cons_self ..)).fits _ hhead, hfits⟩

theorem laid_array {t : Token} (ht : t.Lexical) (hk : t.kind = .leftBracket) :
    (array t es).Laid := by
  have htext : t.text = ['['] := ht.text_of_symbol (by rw [hk]; decide)
  have hhead : Mark.text (array t es).layout =
      '[' :: Mark.text (itemsLayout es ++ [token TokenKind.rightBracket.sign]) := by
    rw [layout, Mark.text_token, htext]
    rfl
  refine ⟨?_, fun floor _ => ?_, fun z hz => ?_, ⟨'[', _, hhead, by decide⟩⟩
  · simp only [layout, render, Mark.text_token, Mark.text_append, Mark.text_nil, htext,
      text_itemsLayout hes, String.toList_append, renderEach_eq_map]
    simp [TokenKind.sign, Token.text, TokenKind.display]
  · have harray : Spells (.expression floor (array t es))
        (t :: (Mark.tokens (itemsLayout es) ++ [TokenKind.rightBracket.sign])) :=
      .array hk (spells_itemsLayout hes) rfl
    simpa [layout] using harray
  · refine ⟨ht, fun d _ => by rw [hk]; rfl, Mark.fits_append.2 ⟨?_, ?_⟩⟩
    · exact fits_itemsLayout hes (Laid.neutral_head (by decide) _)
    · exact ⟨TokenKind.lexical_sign (by decide), fun _ _ => rfl, trivial⟩

theorem laid_call {t : Token} {callee : Node} (hf : callee.Laid) (ht : t.Lexical)
    (hk : t.kind = .leftParen) : (call t callee es).Laid := by
  have htext : t.text = ['('] := ht.text_of_symbol (by rw [hk]; decide)
  obtain ⟨d, cs, hcallee, hd⟩ := hf.head
  have hhead : ∃ ds, Mark.text (call t callee es).layout = d :: ds := by
    rw [layout, Mark.text_append, hcallee]
    exact ⟨_, rfl⟩
  obtain ⟨ds, hhead⟩ := hhead
  refine ⟨?_, fun floor hfloor => ?_, fun z hz => ?_, ⟨d, ds, hhead, hd⟩⟩
  · simp only [layout, render, Mark.text_token, Mark.text_append, Mark.text_nil, htext, hf.text_eq,
      text_itemsLayout hes, String.toList_append, renderEach_eq_map]
    simp [TokenKind.sign, Token.text, TokenKind.display]
  · -- A call stands without parentheses, as no floor is above its level.
    have hcall : Spells (.expression floor (call t callee es)) (Mark.tokens callee.layout ++
        t :: (Mark.tokens (itemsLayout es) ++ [TokenKind.rightParen.sign])) :=
      .call hfloor hk (hf.spells _ (Nat.le_refl _)) (spells_itemsLayout hes) rfl
    simpa [layout] using hcall
  · refine Mark.fits_append.2 ⟨?_, ht, fun d _ => by rw [hk]; rfl, Mark.fits_append.2 ⟨?_, ?_⟩⟩
    · rw [Mark.text_token, htext]
      exact hf.fits _ (Laid.neutral_head (by decide) _)
    · exact fits_itemsLayout hes (Laid.neutral_head (by decide) _)
    · exact ⟨TokenKind.lexical_sign (by decide), fun _ _ => rfl, trivial⟩

end Items

/-! ### Statements -/

/-- The layout of a statement does what it is there for. Without a semicolon this holds only where
nothing follows. -/
structure LaidStatement (s : Node) : Prop where
  text_eq : Mark.text s.statementLayout = s.render.toList
  spells : ∀ ss us, Spells (.statements ss) us → (s.isTerminated = true ∨ us = []) →
    Spells (.statements (s :: ss)) (Mark.tokens s.statementLayout ++ us)
  fits : ∀ z, (s.isTerminated = true ∨ z = []) → Mark.Fits s.statementLayout z

theorem laid_letStatement {t name : Token} {value : Node} (h : value.Laid) (ht : t.Lexical)
    (hn : name.Lexical) (htk : t.kind = .letKeyword) (hnk : name.kind = .identifier) :
    (letStatement t (identifier name name.literal) value).LaidStatement := by
  have htext : t.text = t.literal.toList := Token.text_of_ne_string (by simp [htk])
  have hname : name.text = name.literal.toList := Token.text_of_ne_string (by simp [hnk])
  have hspace (k : TokenKind) : ∀ d ∈ some ' ', k.takes d = false := by
    rintro _ ⟨⟩
    exact TokenKind.takes_of_isSpace rfl k
  refine ⟨?_, fun ss us hus _ => ?_, fun z _ => ?_⟩
  · simp only [statementLayout, layout, render, Mark.text_token, Mark.text_append, Mark.text_blank,
      Mark.text_nil, h.text_eq, htext, hname, String.toList_append]
    simp [TokenKind.sign, Token.text, TokenKind.display]
  · have hlet : Spells (.statement (letStatement t (identifier name name.literal) value))
        (t :: name :: TokenKind.assign.sign :: Mark.tokens value.layout) :=
      .letStatement htk hnk rfl (h.spells 0 (Nat.zero_le _))
    have hstatements : Spells (.statements (_ :: ss)) (_ ++ TokenKind.semicolon.sign :: us) :=
      hlet.terminated rfl hus
    simpa [statementLayout, layout] using hstatements
  · refine ⟨ht, hspace _, rfl, hn, hspace _, rfl, TokenKind.lexical_sign (by decide), hspace _, rfl,
      ?_⟩
    refine Mark.fits_append.2 ⟨h.fits _ (Laid.neutral_head (by decide) _), ?_⟩
    exact ⟨TokenKind.lexical_sign (by decide), fun _ _ => rfl, trivial⟩

theorem laid_returnStatement {t : Token} {value : Node} (h : value.Laid) (ht : t.Lexical)
    (hk : t.kind = .returnKeyword) : (returnStatement t value).LaidStatement := by
  have htext : t.text = t.literal.toList := Token.text_of_ne_string (by simp [hk])
  refine ⟨?_, fun ss us hus _ => ?_, fun z _ => ?_⟩
  · simp only [statementLayout, render, Mark.text_token, Mark.text_append, Mark.text_blank,
      Mark.text_nil, h.text_eq, htext, String.toList_append]
    simp [TokenKind.sign, Token.text, TokenKind.display]
  · have hreturn : Spells (.statement (returnStatement t value)) (t :: Mark.tokens value.layout) :=
      .returnStatement hk (h.spells 0 (Nat.zero_le _))
    have hstatements : Spells (.statements (_ :: ss)) (_ ++ TokenKind.semicolon.sign :: us) :=
      hreturn.terminated rfl hus
    simpa [statementLayout] using hstatements
  · refine ⟨ht, ?_, rfl, Mark.fits_append.2 ⟨h.fits _ (Laid.neutral_head (by decide) _), ?_⟩⟩
    · rintro _ ⟨⟩
      exact TokenKind.takes_of_isSpace rfl _
    · exact ⟨TokenKind.lexical_sign (by decide), fun _ _ => rfl, trivial⟩

theorem laid_expressionStatement {t : Token} {expression : Node} (h : expression.Laid) :
    (expressionStatement t expression).LaidStatement := by
  refine ⟨h.text_eq, fun ss us hus hend => ?_, fun z hend => ?_⟩
  -- An expression has no semicolon of its own, so nothing may follow.
  · obtain rfl := hend.resolve_left Bool.false_ne_true
    exact .unterminated (.expressionStatement (h.spells 0 (Nat.zero_le _))) (by simp) hus
  · obtain rfl := hend.resolve_left Bool.false_ne_true
    exact h.fits [] (by simp)

section Sequence

variable {ss : List Node} (hss : ∀ s ∈ ss, s.LaidStatement)

include hss

theorem text_flatMap_statementLayout :
    Mark.text (ss.flatMap statementLayout) = (String.join (ss.map render)).toList := by
  rw [String.toList_join]
  induction ss with
  | nil => rfl
  | cons s ss ih =>
    rw [List.flatMap_cons, Mark.text_append, (hss s (List.mem_cons_self ..)).text_eq,
      ih fun s hs => hss s (List.mem_cons_of_mem _ hs)]
    rfl

/-- The layouts of statements, one behind the other. -/
theorem spells_flatMap_statementLayout (hends : ss.dropLast.all isTerminated = true) :
    Spells (.statements ss) (Mark.tokens (ss.flatMap statementLayout)) ∧
      Mark.Fits (ss.flatMap statementLayout) [] := by
  induction ss with
  | nil => exact ⟨.noStatements, trivial⟩
  | cons s ss ih =>
    have hs : s.LaidStatement := hss s (List.mem_cons_self ..)
    -- Only the last statement may lack its semicolon.
    have hend : s.isTerminated = true ∨ ss = [] := by
      cases ss with
      | nil => exact .inr rfl
      | cons => exact .inl (by simpa using (Bool.and_eq_true_iff.1 hends).1)
    have hrest : ss.dropLast.all isTerminated = true := by
      cases ss with
      | nil => rfl
      | cons => exact (Bool.and_eq_true_iff.1 hends).2
    obtain ⟨hspells, hfits⟩ := ih (fun s hs => hss s (List.mem_cons_of_mem _ hs)) hrest
    rw [List.flatMap_cons, Mark.tokens_append, Mark.fits_append]
    refine ⟨hs.spells ss _ hspells ?_, hs.fits _ ?_, hfits⟩
    · exact hend.imp_right fun h => by rw [h]; rfl
    · exact hend.imp_right fun h => by rw [h]; rfl

end Sequence

/-! ### Trees that were read -/

/-- What the layouts of a phrase are good for. -/
def Lays : Phrase → Prop
  | .expression _ e => e.isOperational = true → e.Laid
  | .items es | .moreItems es => allOperational es = true → ∀ e ∈ es, e.Laid
  | .statement s => s.isPlain = true → s.LaidStatement
  | .statements ss => ss.all isPlain = true → ∀ s ∈ ss, s.LaidStatement
  | .names _ | .moreNames _ | .block _ => True

end Node

open Node

/-- **Layouts of trees that were read.** Names and literals are spelled by tokens that can be
printed, and the layout prints them again. -/
theorem lays_of_spells {phrase : Phrase} {ts : List Token} (h : Spells phrase ts)
    (hts : ∀ t ∈ ts, t.Lexical) : Lays phrase := by
  induction h with
  -- Names and literals.
  | identifier hk =>
    exact fun _ => laid_of_token rfl rfl (hts _ (by simp)) (by simp [hk]) fun _ => .identifier hk
  | integer hk hn =>
    exact fun _ => laid_of_token rfl rfl (hts _ (by simp)) (by simp [hk]) fun _ => .integer hk hn
  | trueLiteral hk =>
    exact fun _ => laid_of_token rfl rfl (hts _ (by simp)) (by simp [hk]) fun _ => .trueLiteral hk
  | falseLiteral hk =>
    exact fun _ => laid_of_token rfl rfl (hts _ (by simp)) (by simp [hk]) fun _ => .falseLiteral hk
  -- Operations: the tokens are those of the operands and of the operator.
  | unary _ hk _ ih =>
    intro he
    obtain ⟨ht, hts⟩ := List.forall_mem_cons.1 hts
    exact laid_unary (ih hts he) ht hk
  | binary _ hk _ _ ihl ihr =>
    intro he
    obtain ⟨hl, hr⟩ := Bool.and_eq_true_iff.1 he
    obtain ⟨hls, hts⟩ := List.forall_mem_append.1 hts
    obtain ⟨ht, hrs⟩ := List.forall_mem_cons.1 hts
    exact laid_binary (ihl hls hl) (ihr hrs hr) ht hk
  | call _ hk _ _ _ ihf ihargs =>
    intro he
    obtain ⟨hf, hargs⟩ := Bool.and_eq_true_iff.1 he
    obtain ⟨hfs, hts⟩ := List.forall_mem_append.1 hts
    obtain ⟨ht, hts⟩ := List.forall_mem_cons.1 hts
    exact laid_call (ihargs (List.forall_mem_append.1 hts).1 hargs) (ihf hfs hf) ht hk
  | grouped _ _ _ ih =>
    obtain ⟨-, hts⟩ := List.forall_mem_cons.1 hts
    exact ih (List.forall_mem_append.1 hts).1
  | array hk _ _ ih =>
    intro he
    obtain ⟨ht, hts⟩ := List.forall_mem_cons.1 hts
    exact laid_array (ih (List.forall_mem_append.1 hts).1 he) ht hk
  | noItems => exact fun _ e he => absurd he (List.not_mem_nil)
  | noMoreItems => exact fun _ e he => absurd he (List.not_mem_nil)
  | items _ _ ihe ihes =>
    intro hall
    obtain ⟨he, hes⟩ := Bool.and_eq_true_iff.1 hall
    obtain ⟨hts, hus⟩ := List.forall_mem_append.1 hts
    exact List.forall_mem_cons.2 ⟨ihe hts he, ihes hus hes⟩
  | moreItems _ _ _ ihe ihes =>
    intro hall
    obtain ⟨he, hes⟩ := Bool.and_eq_true_iff.1 hall
    obtain ⟨-, hts⟩ := List.forall_mem_cons.1 hts
    obtain ⟨hts, hus⟩ := List.forall_mem_append.1 hts
    exact List.forall_mem_cons.2 ⟨ihe hts he, ihes hus hes⟩
  -- Statements.
  | letStatement hk hn _ _ ih =>
    intro he
    obtain ⟨ht, hts⟩ := List.forall_mem_cons.1 hts
    obtain ⟨hname, hts⟩ := List.forall_mem_cons.1 hts
    exact laid_letStatement (ih (List.forall_mem_cons.1 hts).2 he) ht hname hk hn
  | returnStatement hk _ ih =>
    intro he
    obtain ⟨ht, hts⟩ := List.forall_mem_cons.1 hts
    exact laid_returnStatement (ih hts he) ht hk
  | expressionStatement _ ih => exact fun he => laid_expressionStatement (ih hts he)
  | noStatements => exact fun _ s hs => absurd hs (List.not_mem_nil)
  | terminated _ _ _ ihs ihss =>
    intro hall
    obtain ⟨hs, hss⟩ := Bool.and_eq_true_iff.1 hall
    obtain ⟨hts, hus⟩ := List.forall_mem_append.1 hts
    exact List.forall_mem_cons.2 ⟨ihs hts hs, ihss (List.forall_mem_cons.1 hus).2 hss⟩
  | unterminated _ _ _ ihs ihss =>
    intro hall
    obtain ⟨hs, hss⟩ := Bool.and_eq_true_iff.1 hall
    obtain ⟨hts, hus⟩ := List.forall_mem_append.1 hts
    exact List.forall_mem_cons.2 ⟨ihs hts hs, ihss hus hss⟩
  -- No layout is claimed of the rest.
  | string | conditional | conditionalElse | function =>
    exact fun he => absurd he Bool.false_ne_true
  | noNames | names | noMoreNames | moreNames | block => exact trivial

/-! ### Programs -/

/-- Programs that are the same are rendered alike if their tokens look alike, whatever closing
braces their spellings end with. -/
theorem Program.render_eq_of_spelled {p q : Program} {ts us ts' us' : List Token}
    (hp : p.Spelled (ts ++ ts')) (hq : q.Spelled (us ++ us')) (hsame : (p == q) = true)
    (hlooks : List.Forall₂ Token.LooksLike ts us) (hts' : ∀ t ∈ ts', t.kind = .rightBrace)
    (hus' : ∀ t ∈ us', t.kind = .rightBrace) : p.render = q.render := by
  refine Node.render_eq_of_same hsame ?_
  calc p.toNode.literals
    _ = renderedLiterals (ts ++ ts') := Spells.literals_eq hp
    _ = renderedLiterals ts := by simp [renderedLiterals_of_rightBraces hts']
    _ = renderedLiterals us := renderedLiterals_eq_of_looksLike hlooks
    _ = renderedLiterals (us ++ us') := by simp [renderedLiterals_of_rightBraces hus']
    _ = q.toNode.literals := (Spells.literals_eq hq).symm

/-- **The canonical text is read back.** A program of assignments and returns, with at most one
expression behind them, that is made of names, numbers, truth values, arrays, operators and calls:
its canonical text is read without a diagnostic, as the same program, and is its own canonical
text. -/
theorem parse_render (source : String) (h : (parse source).diagnostics = [])
    (hs : isSequence (parse source).program.statements = true) :
    (parse (parse source).program.render).diagnostics = [] ∧
      ((parse (parse source).program.render).program == (parse source).program) = true ∧
      (parse (parse source).program.render).program.render = (parse source).program.render := by
  obtain ⟨hplain, hends⟩ := Bool.and_eq_true_iff.1 hs
  generalize hprogram : (parse source).program = program at hplain hends ⊢
  obtain ⟨k, hspelled⟩ := Reading.spelled_ofStream (Scanner.Cursor.ofString source) h
  change (parse source).program.Spelled ((tokenize source).dropLast ++ _) at hspelled
  rw [hprogram] at hspelled
  -- The layout of the program: its text, and its tokens.
  have hlexical : ∀ t ∈ (tokenize source).dropLast ++ List.replicate k closingBrace, t.Lexical := by
    intro t ht
    rcases List.mem_append.1 ht with ht | ht
    · exact lexical_of_mem_tokenize ht
    · rw [List.eq_of_mem_replicate ht]
      exact TokenKind.lexical_sign (k := .rightBrace) (by decide)
  have hlaid : ∀ s ∈ program.statements, s.LaidStatement := lays_of_spells hspelled hlexical hplain
  obtain ⟨hspells, hfits⟩ := spells_flatMap_statementLayout hlaid hends
  have hscan := Mark.tokenize_text hfits
  rw [text_flatMap_statementLayout hlaid, String.ofList_toList, ← Program.render_eq_join] at hscan
  -- The canonical text is scanned into these tokens, so it is read as the program they spell.
  generalize program.statements.flatMap statementLayout = layout at hspells hscan
  have hlayout : program.Spelled (Mark.tokens layout ++ []) := by
    rw [List.append_nil]
    exact hspells
  obtain ⟨hnone, hsame⟩ := Reading.same_of_spelled (Scanner.Cursor.ofString program.render) hlayout
    (by simp) hscan
  -- The text of this program depends on its tokens only, and they are the same ones.
  obtain ⟨k', hspelled'⟩ := Reading.spelled_ofStream _ hnone
  refine ⟨hnone, hsame, Program.render_eq_of_spelled hspelled' hlayout hsame hscan ?_ (by simp)⟩
  intro t ht
  rw [List.eq_of_mem_replicate ht]
  rfl

/-- A number keeps its notation, and what stands behind a value in parentheses stays apart from it.
-/
theorem parse_render_notation :
    (parse "let a = -f(x)(0012) * [b, !c]\nreturn (a) b").program.render =
      "let a = ((-f(x)(0012)) * [b, (!c)]);return a;b" ∧
    (parse "let a = ((-f(x)(0012)) * [b, (!c)]);return a;b").diagnostics = [] ∧
    ((parse "let a = ((-f(x)(0012)) * [b, (!c)]);return a;b").program ==
      (parse "let a = -f(x)(0012) * [b, !c]\nreturn (a) b").program) = true ∧
    (parse "let a = ((-f(x)(0012)) * [b, (!c)]);return a;b").program.render =
      "let a = ((-f(x)(0012)) * [b, (!c)]);return a;b" := by
  have hnone : (parse "let a = -f(x)(0012) * [b, !c]\nreturn (a) b").diagnostics = [] := by
    decide +kernel
  have hsequence : isSequence
      (parse "let a = -f(x)(0012) * [b, !c]\nreturn (a) b").program.statements = true := by
    decide +kernel
  have hrender : (parse "let a = -f(x)(0012) * [b, !c]\nreturn (a) b").program.render =
      "let a = ((-f(x)(0012)) * [b, (!c)]);return a;b" := by
    decide +kernel
  have hback := parse_render _ hnone hsequence
  rw [hrender] at hback
  exact ⟨hrender, hback⟩

end MonkeySyntax
