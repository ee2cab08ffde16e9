import Mathlib.Computability.Language
import Mathlib.Order.CompletePartialOrder
import MonkeySyntax.Proofs.Printing
import MonkeySyntax.Proofs.Spelling

/-!
# Languages of phrases

What spells phrases of one kind, whatever the trees are, is a language over tokens. Languages are
multiplied by writing one behind the other, so the grammar gives equations and inclusions between
them. What a rule has still to read, once it has read the beginning of a phrase, is a language too:
it is one of those that the beginning lacks (`Language.lacking`).

Each language of the grammar has a member that can be printed (`Printable`). So whatever a rule has
still to read, there is a text for it.
-/

namespace MonkeySyntax

/-! ### Languages over tokens -/

section Languages

variable {K L M : Language Token} {ts us : List Token}

/-- What becomes a member of `L` when any member of `K` follows. -/
def lacking (L K : Language Token) : Language Token :=
  {ts | ∀ us ∈ K, ts ++ us ∈ L}

theorem mem_lacking : ts ∈ lacking L K ↔ ∀ us ∈ K, ts ++ us ∈ L := Iff.rfl

/-- Of two things that are lacking, the first one follows. -/
theorem append_mem_lacking (h : ts ∈ lacking L (M * K)) (hus : us ∈ M) :
    ts ++ us ∈ lacking L K := by
  intro vs hvs
  rw [List.append_assoc]
  exact h _ (Language.append_mem_mul hus hvs)

/-- Some member of the language can be printed. -/
class Printable (L : Language Token) : Prop where
  exists_lexical : ∃ ts ∈ L, ∀ t ∈ ts, t.Lexical

instance [hL : Printable L] [hM : Printable M] : Printable (L * M) where
  exists_lexical := by
    obtain ⟨ts, hts, htl⟩ := hL.exists_lexical
    obtain ⟨us, hus, hul⟩ := hM.exists_lexical
    refine ⟨ts ++ us, Language.append_mem_mul hts hus, fun t ht => ?_⟩
    exact (List.mem_append.1 ht).elim (htl t) (hul t)

instance : Printable 1 :=
  ⟨[], Language.nil_mem_one, by simp⟩

instance [hL : Printable L] : Printable (L + M) where
  exists_lexical := by
    obtain ⟨ts, hts, htl⟩ := hL.exists_lexical
    exact ⟨ts, .inl hts, htl⟩

end Languages

/-! ### Languages of the grammar -/

namespace Phrases

/-- One token of the kind. -/
def token (k : TokenKind) : Language Token :=
  {ts | ∃ t, t.kind = k ∧ ts = [t]}

/-- Expressions that satisfy the floor. -/
def expressions (floor : Nat) : Language Token :=
  {ts | ∃ e, Spells (.expression floor e) ts}

/-- Expressions with commas between them. -/
def items : Language Token :=
  {ts | ∃ es, Spells (.items es) ts}

/-- Expressions with a comma before each. -/
def moreItems : Language Token :=
  {ts | ∃ es, Spells (.moreItems es) ts}

/-- Names with commas between them. -/
def names : Language Token :=
  {ts | ∃ ns, Spells (.names ns) ts}

/-- Names with a comma before each. -/
def moreNames : Language Token :=
  {ts | ∃ ns, Spells (.moreNames ns) ts}

/-- Statements in braces. -/
def blocks : Language Token :=
  {ts | ∃ b, Spells (.block b) ts}

/-- Statements without their semicolon. -/
def statements : Language Token :=
  {ts | ∃ s, Spells (.statement s) ts}

/-- Sequences of statements. -/
def sequences : Language Token :=
  {ts | ∃ ss, Spells (.statements ss) ts}

theorem singleton_mem_token {t : Token} {k : TokenKind} (h : t.kind = k) : [t] ∈ token k :=
  ⟨t, h, rfl⟩

theorem mem_expressions {floor : Nat} {e : Node} {ts : List Token}
    (h : Spells (.expression floor e) ts) : ts ∈ expressions floor :=
  ⟨e, h⟩

theorem expressions_lower {floor floor' : Nat} (hle : floor' ≤ floor) :
    expressions floor ≤ expressions floor' := by
  rintro ts ⟨e, he⟩
  exact ⟨e, he.lower hle⟩

/-! #### What can be printed -/

/-- A name. -/
def sampleName : Token :=
  ⟨.identifier, "x", 0, 0⟩

theorem lexical_sampleName : sampleName.Lexical :=
  ⟨'x', [], rfl, rfl, rfl⟩

/-- The keyword in front of an alternative. -/
def elseWord : Token :=
  ⟨.elseKeyword, "else", 0, 0⟩

theorem lexical_elseWord : elseWord.Lexical :=
  ⟨'e', ['l', 's', 'e'], rfl, rfl, rfl⟩

theorem printable_token {k : TokenKind} (h : k ∈ symbols.map Prod.snd) : Printable (token k) :=
  ⟨[k.sign], ⟨_, rfl, rfl⟩, by simpa using TokenKind.lexical_sign h⟩

instance : Printable (token .leftParen) := printable_token (by decide)
instance : Printable (token .rightParen) := printable_token (by decide)
instance : Printable (token .leftBrace) := printable_token (by decide)
instance : Printable (token .rightBrace) := printable_token (by decide)
instance : Printable (token .rightBracket) := printable_token (by decide)
instance : Printable (token .assign) := printable_token (by decide)
instance : Printable (token .comma) := printable_token (by decide)

instance : Printable (token .elseKeyword) :=
  ⟨[elseWord], ⟨_, rfl, rfl⟩, by simpa using lexical_elseWord⟩

instance : Printable (token .identifier) :=
  ⟨[sampleName], ⟨_, rfl, rfl⟩, by simpa using lexical_sampleName⟩

instance (floor : Nat) : Printable (expressions floor) :=
  ⟨[sampleName], ⟨_, .identifier rfl⟩, by simpa using lexical_sampleName⟩

instance : Printable items :=
  ⟨[], ⟨_, .noItems⟩, by simp⟩

instance : Printable moreItems :=
  ⟨[], ⟨_, .noMoreItems⟩, by simp⟩

instance : Printable names :=
  ⟨[], ⟨_, .noNames⟩, by simp⟩

instance : Printable moreNames :=
  ⟨[], ⟨_, .noMoreNames⟩, by simp⟩

instance : Printable sequences :=
  ⟨[], ⟨_, .noStatements⟩, by simp⟩

instance : Printable statements :=
  ⟨[sampleName], ⟨.expressionStatement sampleName _, .expressionStatement (.identifier rfl)⟩,
    by simpa using lexical_sampleName⟩

instance : Printable blocks := by
  refine ⟨[TokenKind.leftBrace.sign, TokenKind.rightBrace.sign],
    ⟨_, .block rfl .noStatements rfl⟩, ?_⟩
  intro t ht
  rcases List.mem_pair.1 ht with rfl | rfl
  · exact TokenKind.lexical_sign (by decide)
  · exact TokenKind.lexical_sign (by decide)

/-! #### The grammar, in languages -/

section Grammar

variable {floor : Nat} {t : Token}

theorem grouped_lacks (h : t.kind = .leftParen) :
    [t] ∈ lacking (expressions floor) (expressions 0 * token .rightParen) := by
  rintro _ ⟨ts, ⟨e, he⟩, _, ⟨close, hc, rfl⟩, rfl⟩
  exact ⟨e, .grouped h he hc⟩

theorem array_lacks (h : t.kind = .leftBracket) :
    [t] ∈ lacking (expressions floor) (items * token .rightBracket) := by
  rintro _ ⟨ts, ⟨es, hes⟩, _, ⟨close, hc, rfl⟩, rfl⟩
  exact ⟨_, .array h hes hc⟩

theorem unary_lacks (h : t.kind.IsUnary) :
    [t] ∈ lacking (expressions Level.unary.power) (expressions Level.unary.power) := by
  rintro ts ⟨e, he⟩
  exact ⟨_, .unary (Nat.le_refl _) h he⟩

/-- A conditional, with an alternative or without one. -/
theorem conditional_lacks (h : t.kind = .ifKeyword) :
    [t] ∈ lacking (expressions floor) (token .leftParen * (expressions 0 *
      (token .rightParen * (blocks * (1 + token .elseKeyword * blocks))))) := by
  rintro _ ⟨_, ⟨opening, ho, rfl⟩, _, ⟨cs, ⟨c, hcs⟩, _, ⟨_, ⟨close, hc, rfl⟩, _,
    ⟨bs, ⟨b, hbs⟩, as, has, rfl⟩, rfl⟩, rfl⟩, rfl⟩
  -- The alternative is missing, or it is there.
  rcases has with rfl | ⟨_, ⟨els, hels, rfl⟩, as, ⟨a, has⟩, rfl⟩
  · simpa using mem_expressions (.conditional h ho hcs hc hbs)
  · exact ⟨_, .conditionalElse h ho hcs hc hbs hels has⟩

theorem function_lacks (h : t.kind = .functionKeyword) :
    [t] ∈ lacking (expressions floor) (token .leftParen * (names *
      (token .rightParen * blocks))) := by
  rintro _ ⟨_, ⟨opening, ho, rfl⟩, _, ⟨ts, ⟨ns, hns⟩, _, ⟨_, ⟨close, hc, rfl⟩, bs, ⟨b, hbs⟩, rfl⟩,
    rfl⟩, rfl⟩
  exact ⟨_, .function h ho hns hc hbs⟩

theorem letStatement_lacks (h : t.kind = .letKeyword) :
    [t] ∈ lacking statements (token .identifier * (token .assign * expressions 0)) := by
  rintro _ ⟨_, ⟨name, hn, rfl⟩, _, ⟨_, ⟨assign, ha, rfl⟩, ts, ⟨e, he⟩, rfl⟩, rfl⟩
  exact ⟨_, .letStatement h hn ha he⟩

theorem returnStatement_lacks (h : t.kind = .returnKeyword) :
    [t] ∈ lacking statements (expressions 0) := by
  rintro ts ⟨e, he⟩
  exact ⟨_, .returnStatement h he⟩

theorem expressions_le_statements : expressions 0 ≤ statements := by
  rintro ts ⟨e, he⟩
  exact ⟨.expressionStatement default e, .expressionStatement he⟩

theorem block_lacks (h : t.kind = .leftBrace) :
    [t] ∈ lacking blocks (sequences * token .rightBrace) := by
  rintro _ ⟨ts, ⟨ss, hss⟩, _, ⟨close, hc, rfl⟩, rfl⟩
  exact ⟨_, .block h hss hc⟩

theorem expressions_mul_moreItems_le : expressions 0 * moreItems ≤ items := by
  rintro _ ⟨ts, ⟨e, he⟩, us, ⟨es, hes⟩, rfl⟩
  exact ⟨_, .items he hes⟩

theorem comma_mul_moreItems_le : token .comma * (expressions 0 * moreItems) ≤ moreItems := by
  rintro _ ⟨_, ⟨comma, hc, rfl⟩, _, ⟨ts, ⟨e, he⟩, us, ⟨es, hes⟩, rfl⟩, rfl⟩
  have hmore : Spells (.moreItems (e :: es)) (comma :: (ts ++ us)) := .moreItems hc he hes
  exact ⟨_, hmore⟩

theorem token_mul_moreNames_le : token .identifier * moreNames ≤ names := by
  rintro _ ⟨_, ⟨name, hn, rfl⟩, us, ⟨ns, hns⟩, rfl⟩
  exact ⟨_, .names hn hns⟩

theorem comma_mul_moreNames_le : token .comma * (token .identifier * moreNames) ≤ moreNames := by
  rintro _ ⟨_, ⟨comma, hc, rfl⟩, _, ⟨_, ⟨name, hn, rfl⟩, us, ⟨ns, hns⟩, rfl⟩, rfl⟩
  exact ⟨_, .moreNames hc hn hns⟩

theorem nil_mem_items : [] ∈ items :=
  ⟨[], .noItems⟩

theorem nil_mem_moreItems : [] ∈ moreItems :=
  ⟨[], .noMoreItems⟩

theorem nil_mem_names : [] ∈ names :=
  ⟨[], .noNames⟩

theorem nil_mem_moreNames : [] ∈ moreNames :=
  ⟨[], .noMoreNames⟩

end Grammar

end Phrases

end MonkeySyntax
