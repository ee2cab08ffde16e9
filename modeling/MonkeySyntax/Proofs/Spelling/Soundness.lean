import MonkeySyntax.Proofs.Reading
import MonkeySyntax.Proofs.Spelling

/-!
# Accepted tokens spell the tree

What the parser accepts without a diagnostic, it has understood: the tokens it has passed spell the
tree it has built. Blocks that the end of the input has cut off count as closed, so braces may have
to be added at the end.

A rule reads a phrase from `p` to `q` if, unless something has been reported, the tokens from `p` to
`q` spell it (`Parser.Reads`). Such statements compose (`Reads.trans`), so each rule is followed
part by part, as in `Advance`. The rule that carries the argument is the loop over operators
(`operatorsRounds_reads`): the left operand read so far satisfies both the floor of the whole
expression and the level of the token that comes next. The latter holds because a right operand
takes in every operator that binds more tightly, so the operator behind it binds at most as tightly
as the one before it.
-/

namespace MonkeySyntax

/-- The tokens of `whole` up to `rest`. At the end of the input, closing braces may be added. -/
inductive Spans : (whole tokens rest : List Token) → Prop where
  | read (ts rest : List Token) : Spans (ts ++ rest) ts rest
  | cut (ts : List Token) (k : Nat) : Spans ts (ts ++ List.replicate k closingBrace) []

theorem Spans.trans {whole middle rest ts us : List Token} (h : Spans whole ts middle)
    (h' : Spans middle us rest) : Spans whole (ts ++ us) rest := by
  cases h with
  | read =>
    cases h' with
    | read =>
      rw [← List.append_assoc]
      exact .read _ _
    | cut _ k =>
      rw [← List.append_assoc]
      exact .cut _ k
  | cut _ k =>
    -- Nothing is left, so what follows is braces again, or nothing.
    generalize hm : ([] : List Token) = m at h'
    cases h' with
    | read =>
      obtain ⟨rfl, rfl⟩ := List.append_eq_nil_iff.1 hm.symm
      rw [List.append_nil]
      exact .cut _ k
    | cut _ j =>
      subst hm
      rw [List.nil_append, List.append_assoc, ← List.replicate_add]
      exact .cut _ _

theorem Spans.exists_replicate {whole ts : List Token} (h : Spans whole ts []) :
    ∃ k, ts = whole ++ List.replicate k closingBrace := by
  generalize hr : ([] : List Token) = rest at h
  cases h with
  | read =>
    subst hr
    exact ⟨0, by simp⟩
  | cut _ k => exact ⟨k, rfl⟩

/-- What spans the tokens ahead begins with the first of them. -/
theorem Spans.head_eq {whole ts rest : List Token} {t : Token} {us : List Token}
    (h : Spans whole ts rest) (hw : whole = t :: us) (hne : ts ≠ []) : ts.head? = some t := by
  cases h with
  | read =>
    cases ts with
    | nil => exact absurd rfl hne
    | cons x xs => rw [(List.cons.inj hw).1, List.head?_cons]
  | cut =>
    rw [hw]
    rfl

theorem Spells.expression_ne_nil {floor : Nat} {e : Node} {ts : List Token}
    (h : Spells (.expression floor e) ts) : ts ≠ [] := by
  cases h <;> simp

namespace Parser

variable {σ : Type} [TokenStream σ] {p q r : Parser σ} {X Y Z : List Token → Prop}

/-- From `p` to `q`, tokens of the given description have been read; `q` stands on the last of them.
If something has been reported, nothing is said about the tokens. -/
structure Reads (X : List Token → Prop) (p q : Parser σ) : Prop where
  genuine : q.Genuine
  clean : q.diagnostics = [] → p.diagnostics = []
  exists_spans : q.diagnostics = [] → ∃ ts, Spans p.ahead ts q.advance.ahead ∧ X ts

/-- A rule that has rejected the text has reported it. -/
structure Reported (q : Parser σ) : Prop where
  genuine : q.Genuine
  diagnostics_ne : q.diagnostics ≠ []

omit [TokenStream σ] in
theorem diagnostics_report_ne (p : Parser σ) (d : Diagnostic) : (p.report d).diagnostics ≠ [] := by
  simp

theorem reported_report (hp : p.Genuine) (d : Diagnostic) : (p.report d).Reported :=
  ⟨hp, diagnostics_report_ne p d⟩

theorem Reads.mono (h : Reads X p q) (hXY : ∀ ts, X ts → Y ts) : Reads Y p q where
  genuine := h.genuine
  clean := h.clean
  exists_spans hq := (h.exists_spans hq).imp fun ts hts => ⟨hts.1, hXY ts hts.2⟩

/-- **One phrase after another.** -/
theorem Reads.trans (h : Reads X p q) (h' : Reads Y q.advance r)
    (hZ : ∀ ts us, X ts → Y us → Z (ts ++ us)) : Reads Z p r where
  genuine := h'.genuine
  clean hr := h.clean (h'.clean hr)
  exists_spans hr := by
    obtain ⟨us, hus, hY⟩ := h'.exists_spans hr
    obtain ⟨ts, hts, hX⟩ := h.exists_spans (h'.clean hr)
    exact ⟨ts ++ us, hts.trans hus, hZ ts us hX hY⟩

variable [LawfulTokenStream σ]

/-- One token has been read. -/
theorem Reads.token (hp : p.Genuine) (hk : p.current.kind ≠ .eof) (hX : X [p.current]) :
    Reads X p p where
  genuine := hp
  clean := id
  exists_spans _ := by
    refine ⟨[p.current], ?_, hX⟩
    rw [ahead_of_ne_eof hk]
    exact .read [p.current] _

/-- The token that a rule is entered on. -/
theorem Reads.first (hp : p.Genuine) (hk : p.current.kind ≠ .eof) :
    Reads (fun ts => ts = [p.current]) p p :=
  Reads.token hp hk rfl

/-- One more token has been read. -/
theorem Reads.advance (h : Reads X p q) (hk : q.peek.kind ≠ .eof)
    (hZ : ∀ ts, X ts → Z (ts ++ [q.peek])) : Reads Z p q.advance :=
  h.trans (Reads.token (X := fun us => us = [q.peek]) h.genuine.advance hk rfl)
    fun ts _ hX hu => hu ▸ hZ ts hX

/-- One more token, apart from those before it. -/
theorem Reads.snoc (h : Reads X p q) (hk : q.peek.kind ≠ .eof) :
    Reads (fun ts => ∃ us, X us ∧ ts = us ++ [q.peek]) p q.advance :=
  h.advance hk fun ts hts => ⟨ts, hts, rfl⟩

end Parser

namespace Parse

open MonkeySyntax.Parser

variable {σ : Type} [TokenStream σ] {floor fuel : Nat}
  {expr : Nat → Parse σ Node} {p q : Parser σ} {X Z : List Token → Prop}

/-- What is known of the reader of expressions that the rules are given. An expression read against
a floor binds more tightly than the floor, or begins with an operator; and the token behind it does
not bind more tightly than the floor. -/
def ReadsExpressions (expr : Nat → Parse σ Node) : Prop :=
  ∀ (p : Parser σ) (floor : Nat), p.Genuine → Level.lowest.power ≤ floor →
    ((expr floor).run p).Meets True
      (fun e q =>
        Reads (fun ts => Spells (.expression (min (floor + 1) Level.unary.power) e) ts) p q ∧
          q.peek.kind.level.power ≤ floor)
      Reported

theorem ReadsExpressions.next (he : ReadsExpressions expr) (h : Reads X p q)
    (hf : Level.lowest.power ≤ floor) {Z : Node → List Token → Prop}
    (hZ : ∀ e ts us, X ts → Spells (.expression (min (floor + 1) Level.unary.power) e) us →
      Z e (ts ++ us)) :
    ((expr floor).run q.advance).Meets True
      (fun e r => Reads (Z e) p r ∧ r.peek.kind.level.power ≤ floor) Reported :=
  (he q.advance floor h.genuine.advance hf).mono
    (fun e _ hr => ⟨h.trans hr.1 (hZ e), hr.2⟩) fun _ h => h

variable [LawfulTokenStream σ]

theorem expect_reads (h : Reads X p q) {kind : TokenKind} (hk : kind ≠ .eof)
    (hZ : ∀ ts t, X ts → t.kind = kind → Z (ts ++ [t])) :
    ((expect kind).run q).Meets True (fun _ r => Reads Z p r) Reported := by
  refine meets_expect (fun hq => ?_) fun _ => reported_report h.genuine _
  exact h.advance (hq ▸ hk) fun ts hX => hZ ts _ hX hq

/-! ### Operations and lists -/

section Rules

variable (he : ReadsExpressions expr) (hp : p.Genuine)

include he hp

theorem unary_reads (hk : p.current.kind.IsUnary) :
    ((unary expr).run p).Meets True
      (fun e q => Reads (Spells (.expression Level.unary.power e)) p q ∧
        q.peek.kind.level.power ≤ Level.unary.power) Reported := by
  have hne : p.current.kind ≠ .eof := by rcases hk with hk | hk <;> simp [hk]
  simp only [unary, meets_bind, meets_current, meets_advance, meets_pure]
  refine he.next (Reads.first hp hne) (by decide) ?_
  rintro e ts us rfl hus
  exact .unary (Nat.le_refl _) hk hus

theorem grouped_reads (hk : p.current.kind = .leftParen) :
    ((grouped expr).run p).Meets True
      (fun e q => Reads (fun ts => ∀ floor, Spells (.expression floor e) ts) p q) Reported := by
  simp only [grouped, meets_bind, meets_advance, meets_pure]
  refine (he.next (Z := fun e us => ∃ ts, us = p.current :: ts ∧ Spells (.expression 0 e) ts)
    (Reads.first hp (by simp [hk])) (Nat.le_refl _) ?_).mono (fun e q hq => ?_) fun _ h => h
  · rintro e ts us rfl hus
    exact ⟨us, rfl, hus.lower (Nat.zero_le _)⟩
  · refine expect_reads hq.1 (by decide) ?_
    rintro _ close ⟨ts, rfl, hts⟩ hc
    exact fun floor => .grouped hk hts hc

end Rules

/-- The tokens spell the first items of a list, whatever items follow them. -/
def FirstItems (items : List Node) (ts : List Token) : Prop :=
  ∀ es us, Spells (.moreItems es) us → Spells (.items (items ++ es)) (ts ++ us)

theorem FirstItems.concat {items : List Node} {e : Node} {ts us : List Token} {comma : Token}
    (h : FirstItems items ts) (hc : comma.kind = .comma) (he : Spells (.expression 0 e) us) :
    FirstItems (items ++ [e]) (ts ++ comma :: us) := by
  intro es vs hvs
  have := h (e :: es) (comma :: (us ++ vs)) (.moreItems hc he hvs)
  simpa using this

theorem expressionsRounds_reads (he : ReadsExpressions expr) (bound : Nat) {items : List Node}
    (hq : Reads (FirstItems items) p q) :
    ((rounds (expressionsRound expr) bound items).run q).Meets True
      (fun es r => Reads (FirstItems es) p r) Reported := by
  refine meets_rounds (fun items q => Reads (FirstItems items) p q) (fun _ => 0)
    (fun items q hq => ?_) hq (.inl trivial)
  rw [expressionsRound, meets_bind, meets_peek]
  split
  · next hc =>
    have hcomma := hq.snoc (by simp [hc])
    simp only [meets_bind, meets_advance, meets_pure]
    refine (he.next (Z := fun e => FirstItems (items ++ [e])) hcomma (Nat.le_refl _) ?_).mono
      (fun e r hr => ⟨hr.1, .inl trivial⟩) fun _ h => h
    rintro e _ us ⟨ts, hts, rfl⟩ hus
    rw [List.append_assoc]
    exact hts.concat hc (hus.lower (Nat.zero_le _))
  · exact hq

/-- A list is read from behind its opening token up to its closing one. -/
theorem expressionList_reads (he : ReadsExpressions expr) (hp : p.Genuine) {closing : TokenKind}
    (hc : closing ≠ .eof) :
    ((expressionList expr fuel closing).run p).Meets True
      (fun es q => Reads (fun ts => ∃ us close, Spells (.items es) us ∧ close.kind = closing ∧
        ts = us ++ [close]) p.advance q) Reported := by
  rw [expressionList, meets_bind, meets_peek]
  split
  · next hk =>
    exact Reads.token hp.advance (by simpa [hk] using hc) ⟨[], _, .noItems, hk, rfl⟩
  · simp only [meets_bind, meets_advance, meets_pure]
    refine (he p.advance _ hp.advance (Nat.le_refl _)).mono (fun e q hq => ?_) fun _ h => h
    have hfirst : Reads (FirstItems [e]) p.advance q :=
      hq.1.mono fun ts hts es us hus => .items (hts.lower (Nat.zero_le _)) hus
    refine (expressionsRounds_reads he _ hfirst).mono (fun es r hr => ?_) fun _ h => h
    refine expect_reads hr hc fun ts close hts hk => ⟨ts, close, ?_, hk, rfl⟩
    simpa using hts [] [] .noMoreItems

theorem array_reads (he : ReadsExpressions expr) (hp : p.Genuine)
    (hk : p.current.kind = .leftBracket) :
    ((array expr fuel).run p).Meets True
      (fun e q => Reads (fun ts => ∀ floor, Spells (.expression floor e) ts) p q) Reported := by
  simp only [array, meets_bind, meets_current, meets_pure]
  refine (expressionList_reads he hp (by decide)).mono (fun es q hq => ?_) fun _ h => h
  refine (Reads.first hp (by simp [hk])).trans hq ?_
  rintro _ _ rfl ⟨us, close, hus, hclose, rfl⟩
  exact fun floor => .array hk hus hclose

/-- Arguments extend what is called, from the place where that was read to the end of the
arguments. -/
theorem call_reads (he : ReadsExpressions expr) {callee : Node}
    (hq : Reads (Spells (.expression Level.call.power callee)) p q)
    (hk : q.peek.kind = .leftParen) :
    ((call expr fuel callee).run q.advance).Meets True
      (fun e r => Reads (Spells (.expression Level.call.power e)) p r) Reported := by
  simp only [call, meets_bind, meets_current, meets_pure]
  refine (expressionList_reads he hq.genuine.advance (by decide)).mono (fun es r hr => ?_)
    fun _ h => h
  refine (hq.snoc (by simp [hk])).trans hr ?_
  rintro _ _ ⟨fs, hfs, rfl⟩ ⟨us, close, hus, hclose, rfl⟩
  rw [List.append_assoc]
  exact .call (Nat.le_refl _) hk hfs hus hclose

/-- An operator and its right operand extend the left one. The right operand takes in every operator
that binds more tightly, so the next one does not. -/
theorem binary_reads (he : ReadsExpressions expr) {left : Node}
    (hq : Reads (Spells (.expression q.peek.kind.level.power left)) p q)
    (hk : q.peek.kind.IsBinary) {floor : Nat} (hf : floor ≤ q.peek.kind.level.power) :
    ((binary expr left).run q.advance).Meets True
      (fun e r => Reads (Spells (.expression floor e)) p r ∧
        Reads (Spells (.expression r.peek.kind.level.power e)) p r) Reported := by
  have hlevel := hk.level
  have hne := hk.ne_eof
  -- Above a binary operator's level there is still room for the operators before their operand.
  have hmin : min (q.peek.kind.level.power + 1) Level.unary.power = q.peek.kind.level.power + 1 :=
    Nat.min_eq_left hlevel.2
  have hop := hq.snoc hne
  simp only [binary, meets_bind, meets_current, meets_advance, meets_pure, current_advance]
  refine (he.next (Z := fun r us => ∀ m ≤ q.peek.kind.level.power,
    Spells (.expression m (.binary q.peek left q.peek.literal r)) us)
    hop (Nat.le_of_lt hlevel.1) ?_).mono (fun r q' hr => ?_) fun _ h => h
  · rintro r _ us ⟨ls, hls, rfl⟩ hus m hm
    rw [hmin] at hus
    rw [List.append_assoc]
    exact .binary hm hk hls hus
  · exact ⟨hr.1.mono fun ts h => h _ hf, hr.1.mono fun ts h => h _ hr.2⟩

/-! ### Statements -/

/-- The tokens spell a statement, with its semicolon or before a token that lets it be left out. -/
def SpellsStatement (s : Node) (next : Token) (ts : List Token) : Prop :=
  (∃ us semicolon,
    Spells (.statement s) us ∧ semicolon.kind = .semicolon ∧ ts = us ++ [semicolon]) ∨
    Spells (.statement s) ts ∧ next.kind.level = .lowest

theorem level_eq_lowest {k : TokenKind} (h : k.level.power ≤ Level.lowest.power) :
    k.level = .lowest :=
  Level.power_injective (Nat.le_antisymm h (Level.one_le_power _))

theorem optionalSemicolon_reads {s : Node} (hq : Reads (Spells (.statement s)) p q)
    (hl : q.peek.kind.level.power ≤ Level.lowest.power) :
    (optionalSemicolon.run q).Meets True
      (fun _ r => Reads (SpellsStatement s r.peek) p r) Reported := by
  rw [optionalSemicolon, meets_bind, meets_peek]
  split
  · next hk =>
    exact hq.advance (by simp [hk]) fun ts hts => .inl ⟨ts, _, hts, hk, rfl⟩
  · exact hq.mono fun ts hts => .inr ⟨hts, level_eq_lowest hl⟩

theorem letStatement_reads (he : ReadsExpressions expr) (hp : p.Genuine)
    (hk : p.current.kind = .letKeyword) :
    ((letStatement expr).run p).Meets True
      (fun s q => Reads (SpellsStatement s q.peek) p q) Reported := by
  simp only [letStatement, identifier, meets_bind, meets_current, meets_advance, meets_pure]
  -- The name.
  refine meets_expect (fun hn => ?_) fun _ => reported_report hp _
  have hname : Reads (fun ts => ts = [p.current, p.peek]) p p.advance :=
    (Reads.first hp (by simp [hk])).advance (hn ▸ by decide) fun ts hts => by rw [hts]; rfl
  -- The sign of assignment, and the value behind it.
  refine meets_expect (fun ha => ?_) fun _ => reported_report hp.advance _
  have hassign := hname.advance (ha ▸ by decide) (Z := fun ts =>
    ts = [p.current, p.peek, p.advance.peek]) fun ts hts => by rw [hts]; rfl
  refine (he.next (Z := fun e => Spells (.statement (.letStatement p.current
    (.identifier p.peek p.peek.literal) e))) hassign (Nat.le_refl _) ?_).mono
    (fun e q hq => ?_) fun _ h => h
  · rintro e _ us rfl hus
    exact .letStatement hk hn ha (hus.lower (Nat.zero_le _))
  · exact optionalSemicolon_reads hq.1 hq.2

theorem returnStatement_reads (he : ReadsExpressions expr) (hp : p.Genuine)
    (hk : p.current.kind = .returnKeyword) :
    ((returnStatement expr).run p).Meets True
      (fun s q => Reads (SpellsStatement s q.peek) p q) Reported := by
  simp only [returnStatement, meets_bind, meets_current, meets_advance, meets_pure]
  refine (he.next (Z := fun e => Spells (.statement (.returnStatement p.current e)))
    (Reads.first hp (by simp [hk])) (Nat.le_refl _) ?_).mono (fun e q hq => ?_) fun _ h => h
  · rintro e _ us rfl hus
    exact .returnStatement hk (hus.lower (Nat.zero_le _))
  · exact optionalSemicolon_reads hq.1 hq.2

theorem statement_reads (he : ReadsExpressions expr) (hp : p.Genuine) :
    ((statement expr).run p).Meets True
      (fun s q => Reads (SpellsStatement s q.peek) p q) Reported := by
  rw [statement, meets_bind, meets_current]
  split
  · next hk => exact letStatement_reads he hp hk
  · next hk => exact returnStatement_reads he hp hk
  · simp only [expressionStatement, meets_bind, meets_current, meets_pure]
    refine (he p _ hp (Nat.le_refl _)).mono (fun e q hq => ?_) fun _ h => h
    exact optionalSemicolon_reads (hq.1.mono fun ts hts =>
      .expressionStatement (hts.lower (Nat.zero_le _))) hq.2

/-! ### Sequences of statements -/

/-- The tokens spell the first statements of a sequence, whatever statements follow them from the
token `next` on. -/
def FirstStatements (before : List Node) (next : Token) (ts : List Token) : Prop :=
  ∀ ss us, Spells (.statements ss) us → (∀ t ∈ us.head?, t = next) →
    Spells (.statements (before ++ ss)) (ts ++ us)

theorem SpellsStatement.append {s : Node} {ss : List Node} {next : Token} {ts us : List Token}
    (h : SpellsStatement s next ts) (hus : Spells (.statements ss) us)
    (hnext : ∀ t ∈ us.head?, t = next) : Spells (.statements (s :: ss)) (ts ++ us) := by
  rcases h with ⟨xs, semicolon, hxs, hk, rfl⟩ | ⟨hts, hl⟩
  · rw [List.append_assoc]
    exact .terminated hxs hk hus
  · exact .unterminated hts (fun t ht => hnext t ht ▸ hl) hus

theorem SpellsStatement.ne_nil {s : Node} {next : Token} {ts : List Token}
    (h : SpellsStatement s next ts) : ts ≠ [] := by
  rcases h with ⟨us, semicolon, -, -, rfl⟩ | ⟨hts, -⟩
  · simp
  · cases hts with
    | letStatement => simp
    | returnStatement => simp
    | expressionStatement he => exact he.expression_ne_nil

/-- Between the statements of a sequence that began at `p`: unless something has been reported, the
tokens passed spell the statements read. -/
structure ReadsStatements (before : List Node) (p q : Parser σ) : Prop where
  genuine : q.Genuine
  clean : q.diagnostics = [] → p.diagnostics = []
  exists_spans : q.diagnostics = [] →
    ∃ ts, Spans p.ahead ts q.ahead ∧ FirstStatements before q.current ts

omit [LawfulTokenStream σ] in
/-- Once something has been reported, nothing is said any more. -/
theorem ReadsStatements.of_reported {before : List Node} (hg : q.Genuine)
    (hd : q.diagnostics ≠ []) : ReadsStatements before p q :=
  ⟨hg, fun h => absurd h hd, fun h => absurd h hd⟩

theorem ReadsStatements.concat {before : List Node} {s : Node} {r : Parser σ}
    (h : ReadsStatements before p q) (hk : q.current.kind ≠ .eof)
    (hs : Reads (SpellsStatement s r.peek) q r) :
    ReadsStatements (before ++ [s]) p r.advance where
  genuine := hs.genuine.advance
  clean hr := h.clean (hs.clean hr)
  exists_spans hr := by
    obtain ⟨xs, hxs, hstmt⟩ := hs.exists_spans hr
    obtain ⟨ts, hts, hfirst⟩ := h.exists_spans (hs.clean hr)
    refine ⟨ts ++ xs, hts.trans hxs, fun ss us hus hnext => ?_⟩
    -- The statement begins with the token that the ones before it were promised.
    have hhead : (xs ++ us).head? = some q.current := by
      rw [List.head?_append, hxs.head_eq (ahead_of_ne_eof hk) hstmt.ne_nil]
      rfl
    have := hfirst (s :: ss) (xs ++ us) (hstmt.append hus hnext) fun t ht => by
      rw [hhead] at ht
      exact (Option.some.inj ht).symm
    simpa using this

omit [LawfulTokenStream σ] in
/-- Skipping reports nothing. -/
theorem synchronize_keeps {R : Parser σ → Prop} (hq : q.Genuine) (bound : Nat) :
    ((synchronize bound).run q).Meets True
      (fun _ r => r.Genuine ∧ r.diagnostics = q.diagnostics) R := by
  refine meets_rounds (fun _ r => r.Genuine ∧ r.diagnostics = q.diagnostics) (fun _ => 0)
    (fun depth r hr => ?_) ⟨hq, rfl⟩ (.inl trivial)
  simp only [skipRound, meets_bind, meets_current, meets_peek, meets_onClosed]
  have hadvance : r.advance.Genuine ∧ r.advance.diagnostics = q.diagnostics :=
    ⟨hr.1.advance, hr.2⟩
  split
  · exact hr
  split
  · exact ⟨hadvance, .inl trivial⟩
  split
  · split
    · exact hr
    · exact hr
    · exact ⟨hadvance, .inl trivial⟩
  split
  · exact hr
  · exact ⟨hadvance, .inl trivial⟩

theorem statementsRound_reads (he : ReadsExpressions expr) {ends : TokenKind → Bool}
    (heof : ends .eof = true) {before : List Node} (hq : ReadsStatements before p q)
    {R : Parser σ → Prop} :
    ((statementsRound expr fuel ends before).run q).Meets True
      (fun
        | .next before', r => ReadsStatements before' p r
        | .stop body, r => ReadsStatements body p r ∧ ends r.current.kind = true) R := by
  rw [statementsRound, meets_bind, meets_current]
  split
  · next hk => exact ⟨hq, hk⟩
  · next hk =>
    have hne : q.current.kind ≠ .eof := fun h => hk (h ▸ heof)
    simp only [meets_bind, meets_attempt]
    refine (statement_reads he hq.genuine).mono (fun s r hr => ?_) fun r hr => ?_
    · exact hq.concat hne hr
    · -- A statement that is dropped has been reported, and skipping reports nothing.
      have hg : r.drop.Genuine := hr.genuine
      refine (synchronize_keeps hg _).mono (fun b r' hr' => ?_) fun _ h => h
      have hd : r'.diagnostics ≠ [] := hr'.2 ▸ hr.diagnostics_ne
      split
      · exact .of_reported hr'.1 hd
      · exact .of_reported hr'.1.advance hd

omit [LawfulTokenStream σ] in
/-- No statement has been read yet. -/
theorem ReadsStatements.refl (hp : p.Genuine) : ReadsStatements [] p p :=
  ⟨hp, id, fun _ => ⟨[], .read [] _, fun _ _ hus _ => hus⟩⟩

theorem statements_reads (he : ReadsExpressions expr) (hp : p.Genuine) {ends : TokenKind → Bool}
    (heof : ends .eof = true) {R : Parser σ → Prop} :
    ((statements expr fuel ends).run p).Meets True
      (fun body q => ReadsStatements body p q ∧ ends q.current.kind = true) R := by
  refine meets_rounds (fun before q => ReadsStatements before p q) (fun _ => 0)
    (fun before q hq => ?_) (.refl hp) (.inl trivial)
  refine (statementsRound_reads he heof hq).mono (fun x r hr => ?_) fun _ h => h
  cases x with
  | next before' => exact ⟨hr, .inl trivial⟩
  | stop body => exact hr

/-! ### Blocks -/

/-- A block is read up to its closing brace. At the end of the input one is added. -/
theorem block_reads (he : ReadsExpressions expr) (hp : p.Genuine)
    (hk : p.current.kind = .leftBrace) {R : Parser σ → Prop} :
    ((block expr fuel).run p).Meets True (fun b q => Reads (Spells (.block b)) p q) R := by
  simp only [block, meets_bind, meets_current, meets_advance, meets_closeBlock, meets_pure]
  refine (statements_reads he hp.advance rfl).mono (fun body q hq => ?_) fun _ h => h
  have hclose : ∃ close, close.kind = .rightBrace ∧ Spans q.ahead [close] q.advance.ahead := by
    rcases (endsBlock_iff _).1 hq.2 with hr | heof
    · refine ⟨q.current, hr, ?_⟩
      rw [ahead_of_ne_eof (by simp [hr])]
      exact .read [q.current] _
    · -- The input has cut the block off.
      refine ⟨closingBrace, rfl, ?_⟩
      rw [hq.1.genuine.ahead_advance, ahead_of_eof heof]
      exact .cut [] 1
  refine ⟨by simpa using hq.1.genuine, fun h => hq.1.clean (by simpa using h), fun h => ?_⟩
  obtain ⟨ts, hts, hfirst⟩ := hq.1.exists_spans (by simpa using h)
  obtain ⟨close, hkind, hspans⟩ := hclose
  refine ⟨p.current :: (ts ++ [close]), ?_, .block hk ?_ hkind⟩
  · rw [ahead_of_ne_eof (by simp [hk]), ahead_advance_closeBlock]
    exact (Spans.read [p.current] _).trans (hts.trans hspans)
  · simpa using hfirst [] [] .noStatements (by simp)

/-- A block where a rule expects one. -/
theorem expect_block_reads (he : ReadsExpressions expr) (h : Reads X p q)
    {Z : Node → List Token → Prop}
    (hZ : ∀ b ts us, X ts → Spells (.block b) us → Z b (ts ++ us)) :
    ((expect .leftBrace).run q).Meets True
      (fun _ r => ((block expr fuel).run r).Meets True (fun b r => Reads (Z b) p r) Reported)
      Reported := by
  refine meets_expect (fun hk => ?_) fun _ => reported_report h.genuine _
  exact (block_reads he h.genuine.advance hk).mono (fun b r hr => h.trans hr (hZ b)) fun _ h => h

/-! ### Conditionals and functions -/

theorem alternative_reads (he : ReadsExpressions expr) (h : Reads X p q)
    {Z : Option Node → List Token → Prop} (hnone : ∀ ts, X ts → Z none ts)
    (hsome : ∀ ts els b us, X ts → els.kind = .elseKeyword → Spells (.block b) us →
      Z (some b) (ts ++ els :: us)) :
    ((alternative expr fuel).run q).Meets True (fun o r => Reads (Z o) p r) Reported := by
  rw [alternative, meets_bind, meets_peek]
  split
  · next hk =>
    simp only [meets_bind, meets_advance, meets_pure]
    have hels := h.snoc (hk ▸ by decide)
    refine expect_block_reads he hels (Z := fun b => Z (some b)) ?_
    rintro b _ us ⟨xs, hxs, rfl⟩ hus
    rw [List.append_assoc]
    exact hsome xs _ b us hxs hk hus
  · exact h.mono hnone

theorem conditional_reads (he : ReadsExpressions expr) (hp : p.Genuine)
    (hk : p.current.kind = .ifKeyword) :
    ((conditional expr fuel).run p).Meets True
      (fun e q => Reads (fun ts => ∀ floor, Spells (.expression floor e) ts) p q) Reported := by
  simp only [conditional, meets_bind, meets_current, meets_advance, meets_pure]
  refine (expect_reads (Reads.first hp (hk ▸ by decide))
    (by decide) (Z := fun ts => ∃ opening, opening.kind = .leftParen ∧ ts = [p.current, opening])
    ?_).mono (fun _ q hq => ?_) fun _ h => h
  · rintro _ opening rfl ho
    exact ⟨opening, ho, rfl⟩
  -- The condition, in its parentheses.
  refine (he.next hq (Nat.le_refl _) (Z := fun c ts => ∃ opening cs, opening.kind = .leftParen ∧
    Spells (.expression 0 c) cs ∧ ts = p.current :: opening :: cs) ?_).mono
    (fun c q hq => ?_) fun _ h => h
  · rintro c _ cs ⟨opening, ho, rfl⟩ hcs
    exact ⟨opening, cs, ho, hcs.lower (Nat.zero_le _), rfl⟩
  refine (expect_reads hq.1 (by decide) (Z := fun ts => ∃ opening cs close,
    opening.kind = .leftParen ∧ Spells (.expression 0 c) cs ∧ close.kind = .rightParen ∧
    ts = p.current :: opening :: (cs ++ [close])) ?_).mono (fun _ q hq => ?_) fun _ h => h
  · rintro _ close ⟨opening, cs, ho, hcs, rfl⟩ hc
    exact ⟨opening, cs, close, ho, hcs, hc, rfl⟩
  -- The blocks.
  refine (expect_block_reads he hq (Z := fun b ts => ∃ opening cs close bs,
    opening.kind = .leftParen ∧ Spells (.expression 0 c) cs ∧ close.kind = .rightParen ∧
    Spells (.block b) bs ∧ ts = p.current :: opening :: (cs ++ close :: bs)) ?_).mono
    (fun _ q hq => hq.mono (fun b q hq => ?_) fun _ h => h) fun _ h => h
  · rintro b _ bs ⟨opening, cs, close, ho, hcs, hc, rfl⟩ hbs
    exact ⟨opening, cs, close, bs, ho, hcs, hc, hbs, by simp⟩
  refine alternative_reads he hq ?_ ?_
  · rintro _ ⟨opening, cs, close, bs, ho, hcs, hc, hbs, rfl⟩
    exact fun floor => .conditional hk ho hcs hc hbs
  · rintro _ els a as ⟨opening, cs, close, bs, ho, hcs, hc, hbs, rfl⟩ hels has
    intro floor
    have : Spells (.expression floor (.conditional p.current c b (some a)))
        (p.current :: opening :: (cs ++ close :: (bs ++ els :: as))) :=
      .conditionalElse hk ho hcs hc hbs hels has
    simpa using this

/-- The tokens spell the first names of a list, whatever names follow them. -/
def FirstNames (names : List Node) (ts : List Token) : Prop :=
  ∀ ns us, Spells (.moreNames ns) us → Spells (.names (names ++ ns)) (ts ++ us)

theorem FirstNames.concat {names : List Node} {ts : List Token} {comma name : Token}
    (h : FirstNames names ts) (hc : comma.kind = .comma) (hn : name.kind = .identifier) :
    FirstNames (names ++ [.identifier name name.literal]) (ts ++ [comma, name]) := by
  intro ns us hus
  have := h (.identifier name name.literal :: ns) (comma :: name :: us) (.moreNames hc hn hus)
  simpa using this

theorem parametersRounds_reads (bound : Nat) {names : List Node}
    (hq : Reads (FirstNames names) p q) :
    ((rounds parametersRound bound names).run q).Meets True
      (fun ns r => Reads (FirstNames ns) p r) Reported := by
  refine meets_rounds (fun names q => Reads (FirstNames names) p q) (fun _ => 0)
    (fun names q hq => ?_) hq (.inl trivial)
  rw [parametersRound, meets_bind, meets_peek]
  split
  · next hc =>
    have hcomma := hq.snoc (hc ▸ by decide)
    simp only [identifier, meets_bind, meets_advance, meets_current, meets_pure]
    refine meets_expect (fun hn => ⟨?_, .inl trivial⟩) fun _ => reported_report hcomma.genuine _
    refine hcomma.advance (hn ▸ by decide) ?_
    rintro _ ⟨us, hus, rfl⟩
    rw [List.append_assoc]
    exact hus.concat hc hn
  · exact hq

theorem parameters_reads (hp : p.Genuine) :
    ((parameters fuel).run p).Meets True
      (fun ns q => Reads (fun ts => ∃ us close, Spells (.names ns) us ∧
        close.kind = .rightParen ∧ ts = us ++ [close]) p.advance q) Reported := by
  rw [parameters, meets_bind, meets_peek]
  split
  · next hk =>
    exact Reads.token hp.advance (show p.peek.kind ≠ .eof from hk ▸ by decide)
      ⟨[], _, .noNames, hk, rfl⟩
  · simp only [identifier, meets_bind, meets_current, meets_pure]
    refine meets_expect (fun hn => ?_) fun _ => reported_report hp _
    have hfirst : Reads (FirstNames [.identifier p.peek p.peek.literal]) p.advance p.advance :=
      Reads.token hp.advance (show p.peek.kind ≠ .eof from hn ▸ by decide)
        fun ns us hus => .names hn hus
    refine (parametersRounds_reads _ hfirst).mono (fun ns r hr => ?_) fun _ h => h
    refine expect_reads hr (by decide) fun ts close hts hk => ⟨ts, close, ?_, hk, rfl⟩
    simpa using hts [] [] .noMoreNames

theorem function_reads (he : ReadsExpressions expr) (hp : p.Genuine)
    (hk : p.current.kind = .functionKeyword) :
    ((function expr fuel).run p).Meets True
      (fun e q => Reads (fun ts => ∀ floor, Spells (.expression floor e) ts) p q) Reported := by
  simp only [function, meets_bind, meets_current, meets_pure]
  refine (expect_reads (Reads.first hp (hk ▸ by decide))
    (by decide) (Z := fun ts => ∃ opening, opening.kind = .leftParen ∧ ts = [p.current, opening])
    ?_).mono (fun _ q hq => ?_) fun _ h => h
  · rintro _ opening rfl ho
    exact ⟨opening, ho, rfl⟩
  refine (parameters_reads hq.genuine).mono (fun ns r hr => ?_) fun _ h => h
  refine expect_block_reads he (hq.trans hr (Z := fun ts => ∃ opening us close,
    opening.kind = .leftParen ∧ Spells (.names ns) us ∧ close.kind = .rightParen ∧
    ts = p.current :: opening :: (us ++ [close])) ?_) ?_
  · rintro _ _ ⟨opening, ho, rfl⟩ ⟨us, close, hus, hc, rfl⟩
    exact ⟨opening, us, close, ho, hus, hc, rfl⟩
  · rintro b _ bs ⟨opening, us, close, ho, hus, hc, rfl⟩ hbs
    intro floor
    have : Spells (.expression floor (.function p.current ns b))
        (p.current :: opening :: (us ++ close :: bs)) := .function hk ho hus hc hbs
    simpa using this

/-! ### Expressions -/

/-- The rules for the first token of an expression. What they read satisfies every floor, except
that operators before their operand must not be looked into; but no operator binds more tightly than
these and follows their operand. -/
theorem prefixRule_reads (he : ReadsExpressions expr) (hp : p.Genuine) {rule : Parse σ Node}
    (hr : prefixRule expr fuel p.current.kind = some rule) :
    (rule.run p).Meets True
      (fun e q => Reads (Spells (.expression
        (max Level.unary.power q.peek.kind.level.power) e)) p q) Reported := by
  have hne := (plain_of_prefixRule hr).1
  have hunary (hk : p.current.kind.IsUnary) : ((unary expr).run p).Meets True
      (fun e q => Reads (Spells (.expression
        (max Level.unary.power q.peek.kind.level.power) e)) p q) Reported := by
    refine (unary_reads he hp hk).mono (fun e q hq => ?_) fun _ h => h
    rw [Nat.max_eq_left hq.2]
    exact hq.1
  unfold prefixRule at hr
  split at hr <;> cases hr
  · next hk => exact Reads.token hp hne (.identifier hk)
  · next hk =>
    rw [integer, meets_bind, meets_current]
    split
    · next n hn => exact Reads.token hp hne (.integer hk hn)
    · exact reported_report hp _
  · next hk =>
    simp only [boolean, meets_bind, meets_current, meets_pure, hk]
    exact Reads.token hp hne (.trueLiteral hk)
  · next hk =>
    simp only [boolean, meets_bind, meets_current, meets_pure, hk]
    exact Reads.token hp hne (.falseLiteral hk)
  · next hk => exact Reads.token hp hne (.string hk)
  · next hk => exact hunary (.inl hk)
  · next hk => exact hunary (.inr hk)
  · next hk =>
    exact (grouped_reads he hp hk).mono (fun e q hq => hq.mono fun ts h => h _) fun _ h => h
  · next hk =>
    exact (array_reads he hp hk).mono (fun e q hq => hq.mono fun ts h => h _) fun _ h => h
  · next hk =>
    exact (conditional_reads he hp hk).mono (fun e q hq => hq.mono fun ts h => h _) fun _ h => h
  · next hk =>
    exact (function_reads he hp hk).mono (fun e q hq => hq.mono fun ts h => h _) fun _ h => h

omit [LawfulTokenStream σ] in
theorem level_le_of_infixRule_eq_none {k : TokenKind} (h : infixRule expr fuel k = none) :
    k.level.power ≤ Level.lowest.power := by
  revert h
  cases k <;> simp [infixRule] <;> decide

omit [LawfulTokenStream σ] in
/-- The two kinds of tokens that have a rule behind a left operand. -/
theorem infixRule_cases {k : TokenKind} {rule : Node → Parse σ Node}
    (h : infixRule expr fuel k = some rule) :
    k.IsBinary ∧ rule = binary expr ∨ k = .leftParen ∧ rule = call expr fuel := by
  unfold infixRule at h
  split at h <;> cases h
  case h_9 => exact .inr ⟨rfl, rfl⟩
  all_goals exact .inl ⟨by decide, rfl⟩

/-- One round of the loop over operators: the operand read so far satisfies the floor that the whole
expression must satisfy, and the level of the next token, so that this may become its operator. -/
theorem operatorsRound_reads (he : ReadsExpressions expr) (hf : Level.lowest.power ≤ floor)
    {left : Node} (hq : Reads (Spells (.expression
      (max (min (floor + 1) Level.unary.power) q.peek.kind.level.power) left)) p q) :
    ((operatorsRound expr fuel floor left).run q).Meets True
      (fun
        | .next e, r => Reads (Spells (.expression
            (max (min (floor + 1) Level.unary.power) r.peek.kind.level.power) e)) p r
        | .stop e, r => Reads (Spells (.expression (min (floor + 1) Level.unary.power) e)) p r ∧
            r.peek.kind.level.power ≤ floor) Reported := by
  have hfloor : Reads (Spells (.expression (min (floor + 1) Level.unary.power) left)) p q :=
    hq.mono fun ts h => h.lower (Nat.le_max_left _ _)
  have hlevel : Reads (Spells (.expression q.peek.kind.level.power left)) p q :=
    hq.mono fun ts h => h.lower (Nat.le_max_right _ _)
  rw [operatorsRound, meets_bind, meets_peek]
  split
  · next hk =>
    split
    · next hnone =>
      exact ⟨hfloor, Nat.le_trans (level_le_of_infixRule_eq_none hnone) hf⟩
    · next rule hrule =>
      simp only [meets_bind, meets_advance, meets_pure]
      have hmin : min (floor + 1) Level.unary.power ≤ q.peek.kind.level.power :=
        Nat.le_trans (Nat.min_le_left _ _) hk.2
      rcases infixRule_cases hrule with ⟨hbin, rfl⟩ | ⟨hparen, rfl⟩
      -- An operator: the result satisfies both its own level and that of the token behind it.
      · refine (binary_reads he hlevel hbin hmin).mono (fun e r hr => ?_) fun _ h => h
        -- The larger one of two floors is one of the two.
        rcases Nat.le_total (min (floor + 1) Level.unary.power) r.peek.kind.level.power with h | h
        · rw [Nat.max_eq_right h]
          exact hr.2
        · rw [Nat.max_eq_left h]
          exact hr.1
      -- A call satisfies every floor up to its own level, and no token has a higher one.
      · rw [hparen] at hlevel
        refine (call_reads he hlevel hparen).mono (fun e r hr => ?_) fun _ h => h
        refine hr.mono fun ts h => h.lower (Nat.max_le.2 ⟨?_, r.peek.kind.level_le_call⟩)
        exact Nat.le_trans (Nat.min_le_right _ _) (by decide)
  · next hk =>
    -- The loop stops: at a semicolon, or since the next token does not bind more tightly.
    refine ⟨hfloor, ?_⟩
    rcases Decidable.not_and_iff_or_not.1 hk with hs | hl
    · rw [Decidable.not_not.1 hs]
      exact hf
    · exact Nat.le_of_not_lt hl

/-- **The loop over operators.** -/
theorem operatorsRounds_reads (he : ReadsExpressions expr) (bound : Nat)
    (hf : Level.lowest.power ≤ floor) {left : Node}
    (hq : Reads (Spells (.expression
      (max (min (floor + 1) Level.unary.power) q.peek.kind.level.power) left)) p q) :
    ((rounds (operatorsRound expr fuel floor) bound left).run q).Meets True
      (fun e r => Reads (Spells (.expression (min (floor + 1) Level.unary.power) e)) p r ∧
        r.peek.kind.level.power ≤ floor) Reported := by
  refine meets_rounds (fun left q => Reads (Spells (.expression
    (max (min (floor + 1) Level.unary.power) q.peek.kind.level.power) left)) p q) (fun _ => 0)
    (fun left q hq => ?_) hq (.inl trivial)
  refine (operatorsRound_reads he hf hq).mono (fun x r hr => ?_) fun _ h => h
  cases x with
  | next e => exact ⟨hr, .inl trivial⟩
  | stop e => exact hr

theorem expression_reads (N : Nat) : ReadsExpressions (σ := σ) (expression N) := by
  induction N with
  | zero => exact fun p floor hp hf => trivial
  | succ N ih =>
    intro p floor hp hf
    rw [expression, meets_bind, meets_current]
    split
    · exact reported_report hp _
    · next rule hrule =>
      rw [meets_bind]
      refine (prefixRule_reads ih hp hrule).mono (fun left q hq => ?_) fun _ h => h
      refine operatorsRounds_reads ih _ hf (hq.mono fun ts h => h.lower (Nat.max_le.2 ⟨?_, ?_⟩))
      · exact Nat.le_trans (Nat.min_le_right _ _) (Nat.le_max_left _ _)
      · exact Nat.le_max_right _ _

end Parse

/-! ### Programs -/

open Parse

open MonkeySyntax.Parser (genuine_ofStream ahead ahead_of_eof upcoming_ofStream)

variable {σ : Type} [TokenStream σ] [LawfulTokenStream σ]

/-- The tokens of a stream that is read without a diagnostic spell the program, once the blocks that
are still open have been closed. -/
theorem Reading.spelled_ofStream (s : σ) (h : (Reading.ofStream s).diagnostics = []) :
    ∃ k, (Reading.ofStream s).program.Spelled
      ((TokenStream.toList s).dropLast ++ List.replicate k closingBrace) := by
  obtain ⟨body, q, hrun, heof, heq⟩ :=
    Reading.exists_run (genuine_ofStream s) (Parser.behind_ofStream s)
  have hread : ((statements (expression (Parser.ofStream s).fuel) (Parser.ofStream s).fuel
      endsProgram).run (Parser.ofStream s)).Meets True
      (fun body q => ReadsStatements body (Parser.ofStream s) q ∧ endsProgram q.current.kind = true)
      fun _ => True :=
    statements_reads (expression_reads _) (genuine_ofStream s) rfl
  rw [hrun] at hread
  have hq : q.diagnostics = [] := by rwa [Reading.ofStream, heq] at h
  obtain ⟨ts, hts, hfirst⟩ := hread.1.exists_spans hq
  rw [ahead_of_eof heof, ahead, upcoming_ofStream] at hts
  obtain ⟨k, rfl⟩ := hts.exists_replicate
  refine ⟨k, ?_⟩
  rw [Reading.ofStream, heq, Program.Spelled]
  simpa using hfirst [] [] .noStatements (by simp)

/-- **Accepted programs are spelled by their tokens.** When a text is read without a diagnostic, its
tokens are a spelling of the program that is returned, followed, for each block that the end of the
text has cut off, by the closing brace it lacks. -/
theorem spelled_of_accepted (source : String) (h : (parse source).diagnostics = []) :
    ∃ k, (parse source).program.Spelled
      ((tokenize source).dropLast ++ List.replicate k closingBrace) :=
  Reading.spelled_ofStream _ h

theorem spelled_of_accepted_open_block :
    (parse "if (-a + b * c) \x7b x return f(1)").diagnostics = [] ∧
    ∃ k, (parse "if (-a + b * c) \x7b x return f(1)").program.Spelled
      ((tokenize "if (-a + b * c) \x7b x return f(1)").dropLast ++
        List.replicate k closingBrace) := by
  have h : (parse "if (-a + b * c) \x7b x return f(1)").diagnostics = [] := by decide +kernel
  exact ⟨h, spelled_of_accepted _ h⟩

end MonkeySyntax
