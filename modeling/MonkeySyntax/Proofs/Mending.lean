import MonkeySyntax.Proofs.Halting
import MonkeySyntax.Proofs.Parallel
import MonkeySyntax.Proofs.Spelling.Languages
import MonkeySyntax.Proofs.Spelling.Soundness

/-!
# What was read can be completed

Up to the first token that is reported, nothing was wrong: whatever a rule has read until then can
be completed to a phrase of the kind that the rule reads, by tokens that can be printed.

A rule is followed from token to token, with an account of what is still lacking (`Parser.Goes`). As
long as nothing has been reported, the tokens passed are those that the account speaks of. If a part
of the rule is rejected, that part is completed, and then what lies behind it in the rule. The same
is done where a part has made a diagnostic and is done all the same, which happens in blocks.

Two rules need more than the account. The operand that the loop over operators has collected must
satisfy the level of the operator that comes next, which is known from reading without diagnostics
(`Parse.operatorsRound_reads`). And a statement that is rejected at its first token is not completed
but left out: before another token, the semicolon in front of it might be missing.
-/

namespace MonkeySyntax

/-- Either nothing has been added, or nothing is left. -/
theorem Spans.eq_or {whole ts rest : List Token} (h : Spans whole ts rest) :
    whole = ts ++ rest ∨ rest = [] ∧ ∃ k, ts = whole ++ List.replicate k closingBrace := by
  cases h with
  | read => exact .inl rfl
  | cut _ k => exact .inr ⟨rfl, k, rfl⟩

theorem lexical_closingBrace : closingBrace.Lexical :=
  TokenKind.lexical_sign (k := .rightBrace) (by decide)

namespace Parser

variable {σ : Type} [TokenStream σ] {p q r : Parser σ} {K L M : Language Token} {t : Token}
  {ts us : List Token}

/-! ### Up to a token -/

/-- The tokens begin with those that the parser has ahead of the token `t`, and go on with some that
can be printed. -/
def Until (p : Parser σ) (t : Token) (ts : List Token) : Prop :=
  ∃ before behind rest, ts = before ++ behind ∧ p.upcoming = before ++ t :: rest ∧
    ∀ u ∈ behind, u.Lexical

theorem Until.append (h : p.Until t ts) (hus : ∀ u ∈ us, u.Lexical) : p.Until t (ts ++ us) := by
  obtain ⟨before, behind, rest, rfl, hup, hbehind⟩ := h
  refine ⟨before, behind ++ us, rest, List.append_assoc _ _ _, hup, fun u hu => ?_⟩
  exact (List.mem_append.1 hu).elim (hbehind u) (hus u)

/-- Nothing stands before the current token. -/
theorem until_current (p : Parser σ) (hus : ∀ u ∈ us, u.Lexical) : p.Until p.current us := by
  have hhead := p.head?_upcoming
  cases hup : p.upcoming with
  | nil => exact absurd hup p.upcoming_ne_nil
  | cons t rest =>
    rw [hup] at hhead
    obtain rfl : t = p.current := Option.some.inj hhead
    exact ⟨[], us, rest, rfl, hup, hus⟩

variable [LawfulTokenStream σ]

/-- Up to a token that lies behind some that have been read. -/
theorem Until.of_spans (hs : Spans p.ahead ts q.ahead) (hq : q.upcoming <:+ p.upcoming)
    (h : q.Until t us) : p.Until t (ts ++ us) := by
  obtain ⟨before, behind, rest, rfl, hup, hbehind⟩ := h
  obtain ⟨xs, hxs⟩ := hq
  have hahead : p.ahead = xs ++ q.ahead := by
    rw [ahead, ← hxs, List.dropLast_append_of_ne_nil q.upcoming_ne_nil, ahead]
  rcases hs.eq_or with heq | ⟨hnil, k, rfl⟩
  · obtain rfl : xs = ts := List.append_cancel_right (hahead.symm.trans heq)
    refine ⟨xs ++ before, behind, rest, by rw [List.append_assoc], ?_, hbehind⟩
    rw [← hxs, hup, List.append_assoc]
  · -- The parser is at the end, and braces have been added there.
    rw [upcoming_of_eof (ahead_eq_nil_iff.1 hnil)] at hup hxs
    obtain ⟨rfl, hcons⟩ : before = [] ∧ [q.current] = t :: rest := by
      cases before with
      | nil => exact ⟨rfl, hup⟩
      | cons u before =>
        have hlen := congrArg List.length hup
        simp at hlen
    rw [hnil, List.append_nil] at hahead
    refine ⟨p.ahead, List.replicate k closingBrace ++ behind, rest, by simp, ?_, fun u hu => ?_⟩
    · rw [← hxs, hcons, hahead]
    · rcases List.mem_append.1 hu with hu | hu
      · rw [List.eq_of_mem_replicate hu]
        exact lexical_closingBrace
      · exact hbehind u hu

/-! ### Accounts of what has been read -/

/-- From `p` to `q`: if something has been reported, what was read up to the first token reported
can be completed to a member of the language. -/
structure Mends (L : Language Token) (p q : Parser σ) : Prop where
  onward : Onward p q
  diagnostics : p.diagnostics <+: q.diagnostics
  exists_until : p.diagnostics = [] → ∀ d, q.Reports d → ∃ ts ∈ L, p.Until d.token ts

/-- The text has been rejected. -/
structure Breaks (L : Language Token) (p q : Parser σ) : Prop where
  mends : Mends L p q
  reported : q.diagnostics ≠ []

/-- From `p` to `q` a member of the language has been read, up to a token that is reported if there
is one. -/
structure Goes (L : Language Token) (p q : Parser σ) : Prop where
  reads : Reads (fun ts => ts ∈ L) p q
  mends : Mends L p q

omit [TokenStream σ] [LawfulTokenStream σ] in
/-- What was reported first before, still is. -/
theorem Reports.of_prefix_right {d : Diagnostic} (h : r.Reports d)
    (hpre : q.diagnostics <+: r.diagnostics) (hq : q.diagnostics ≠ []) : q.Reports d := by
  obtain ⟨d', ds, hds⟩ := List.exists_cons_of_ne_nil hq
  have hd' : q.Reports d' := by rw [Reports, hds, List.head?_cons]
  exact (Option.some.inj (Eq.trans (Eq.symm h) (hd'.of_prefix hpre))) ▸ hd'

section Mends

omit [LawfulTokenStream σ]

theorem Mends.mono (h : Mends L p q) (hLM : L ≤ M) : Mends M p q where
  onward := h.onward
  diagnostics := h.diagnostics
  exists_until hp d hd := (h.exists_until hp d hd).imp fun _ hts => ⟨hLM hts.1, hts.2⟩

theorem Breaks.mono (h : Breaks L p q) (hLM : L ≤ M) : Breaks M p q :=
  ⟨h.mends.mono hLM, h.reported⟩

/-- What was completed may be continued. -/
theorem Mends.append [hK : Printable K] (h : Mends L p q)
    (hM : ∀ ts ∈ L, ∀ us ∈ K, ts ++ us ∈ M) : Mends M p q where
  onward := h.onward
  diagnostics := h.diagnostics
  exists_until hp d hd := by
    obtain ⟨ts, hts, huntil⟩ := h.exists_until hp d hd
    obtain ⟨us, hus, hlexical⟩ := hK.exists_lexical
    exact ⟨ts ++ us, hM ts hts us hus, huntil.append hlexical⟩

/-- Once something has been reported, what follows does not matter. -/
theorem Mends.later (h : Mends L p q) (hq : q.diagnostics ≠ []) (ho : Onward q r)
    (hd : q.diagnostics <+: r.diagnostics) : Mends L p r where
  onward := h.onward.trans ho
  diagnostics := h.diagnostics.trans hd
  exists_until hp d hr := h.exists_until hp d (hr.of_prefix_right hd hq)

/-- Where nothing has been reported, there is nothing to complete. -/
theorem mends_of_diagnostics_eq (ho : Onward p q) (hd : q.diagnostics = p.diagnostics) :
    Mends L p q where
  onward := ho
  diagnostics := hd ▸ List.prefix_rfl
  exists_until hp d hr := by
    rw [Reports, hd, hp] at hr
    cases hr

/-- A report of the current token leaves everything to be completed. -/
theorem breaks_report [hL : Printable L] (hp : p.Genuine) {d : Diagnostic}
    (hd : d.token = p.current) : Breaks L p (p.report d) where
  mends := {
    onward := ⟨hp, List.suffix_rfl⟩
    diagnostics := List.prefix_append _ _
    exists_until := by
      intro hnone d' hd'
      rw [Reports, diagnostics_report, hnone] at hd'
      obtain rfl : d = d' := Option.some.inj hd'
      obtain ⟨us, hus, hlexical⟩ := hL.exists_lexical
      exact ⟨us, hus, hd ▸ until_current p hlexical⟩ }
  reported := diagnostics_report_ne p d

end Mends

theorem Mends.advance (h : Mends L p q) : Mends L p q.advance where
  onward := h.onward.trans (.advance h.onward.genuine)
  diagnostics := h.diagnostics
  exists_until := h.exists_until

/-- **One phrase after another.** The first one has been read without a diagnostic, or completed. -/
theorem Mends.extend {X : List Token → Prop} (hr : Reads X p q) (h : Mends M p q)
    (h' : Mends L q.advance r) (hM : ∀ ts us, X ts → us ∈ L → ts ++ us ∈ M) : Mends M p r := by
  have ho : Onward q q.advance := .advance h.onward.genuine
  -- The token reported first lies in the second phrase, or else nothing follows what completes the
  -- first one.
  by_cases hq : q.diagnostics = []
  · refine ⟨h.onward.trans (ho.trans h'.onward), h.diagnostics.trans h'.diagnostics, ?_⟩
    intro _ d hd
    obtain ⟨us, hus, huntil⟩ := h'.exists_until hq d hd
    obtain ⟨ts, hts, hX⟩ := hr.exists_spans hq
    exact ⟨ts ++ us, hM ts us hX hus, huntil.of_spans hts (h.onward.trans ho).suffix⟩
  · exact h.later hq (ho.trans h'.onward) h'.diagnostics

omit [LawfulTokenStream σ] in
theorem Goes.mono (h : Goes L p q) (hLM : L ≤ M) : Goes M p q :=
  ⟨h.reads.mono fun _ hts => hLM hts, h.mends.mono hLM⟩

theorem Goes.trans [Printable L] {X Y : Language Token} (h : Goes X p q)
    (h' : Goes L q.advance r) (hY : ∀ ts ∈ X, ∀ us ∈ L, ts ++ us ∈ Y) : Goes Y p r where
  reads := h.reads.trans h'.reads fun ts us hts hus => hY ts hts us hus
  mends := (h.mends.append hY).extend h.reads h'.mends fun ts us hts hus => hY ts hts us hus

/-- One token has been read. -/
theorem Goes.token (hp : p.Genuine) (hk : p.current.kind ≠ .eof) (hL : [p.current] ∈ L) :
    Goes L p p :=
  ⟨Reads.token hp hk hL, mends_of_diagnostics_eq (.refl hp) rfl⟩

/-- The token that is lacking has come. -/
theorem Goes.pass {k : TokenKind} [Printable (Phrases.token k)]
    (h : Goes (lacking L (Phrases.token k * K)) p q) (hk : q.peek.kind = k) (he : k ≠ .eof) :
    Goes (lacking L K) p q.advance := by
  have hne : q.advance.current.kind ≠ .eof := by
    rw [current_advance, hk]
    exact he
  have hnext : Goes (Phrases.token k) q.advance q.advance :=
    .token h.reads.genuine.advance hne (Phrases.singleton_mem_token hk)
  exact h.trans hnext fun ts hts us hus => append_mem_lacking hts hus

/-- Another token has come. -/
theorem Goes.report_peek [hK : Printable K] (h : Goes (lacking L K) p q) {d : Diagnostic}
    (hd : d.token = q.peek) : Breaks L p (q.report d) where
  mends := {
    onward := ⟨h.reads.genuine, h.mends.onward.suffix⟩
    diagnostics := h.mends.diagnostics.trans (List.prefix_append _ _)
    exists_until := by
      intro hp d' hd'
      obtain ⟨us, hus, hlexical⟩ := hK.exists_lexical
      -- The report is the first one, or it comes too late to matter.
      by_cases hq : q.diagnostics = []
      · rw [Reports, diagnostics_report, hq] at hd'
        obtain rfl : d = d' := Option.some.inj hd'
        obtain ⟨ts, hts, hlacking⟩ := h.reads.exists_spans hq
        have hsuffix := (h.mends.onward.trans (.advance h.reads.genuine)).suffix
        have huntil : q.advance.Until d.token us := hd ▸ until_current q.advance hlexical
        exact ⟨ts ++ us, hlacking us hus, huntil.of_spans hts hsuffix⟩
      · have hfirst : q.Reports d' := hd'.of_prefix_right (List.prefix_append _ _) hq
        obtain ⟨ts, hts, huntil⟩ := h.mends.exists_until hp d' hfirst
        exact ⟨ts ++ us, hts us hus, huntil.append hlexical⟩ }
  reported := diagnostics_report_ne q d

end Parser

namespace Parse

open MonkeySyntax.Parser Phrases

variable {σ : Type} [TokenStream σ] [LawfulTokenStream σ] {floor fuel : Nat}
  {expr : Nat → Parse σ Node} {p q : Parser σ} {K L M : Language Token} {α : Type}

/-! ### Steps of a rule -/

/-- A part of a rule, with others behind it. -/
theorem goes_next [Printable M] [Printable K] {m : Parse σ α}
    (h : Goes (lacking L (M * K)) p q)
    (hm : (m.run q.advance).Meets True (fun _ r => Goes M q.advance r) (Breaks M q.advance)) :
    (m.run q.advance).Meets True (fun _ r => Goes (lacking L K) p r) (Breaks L p) := by
  have hmem (ts us : List Token) (hts : ts ∈ lacking L (M * K)) (hus : us ∈ M) :
      ts ++ us ∈ lacking L K := append_mem_lacking hts hus
  refine hm.mono (fun a r hr => h.trans hr fun ts hts us hus => hmem ts us hts hus) fun r hr => ?_
  -- What has been read and completed so far lacks the parts behind this one.
  have hmends : Mends (lacking L K) p r :=
    (h.mends.append fun ts hts us hus => hmem ts us hts hus).extend h.reads hr.mends hmem
  exact ⟨hmends.append fun ts hts us hus => hts us hus, hr.reported⟩

theorem lacking_one (L : Language Token) : lacking L 1 = L := by
  ext ts
  rw [mem_lacking]
  simp

/-- The last part of a rule. -/
theorem goes_last [Printable M] {m : Parse σ α} (h : Goes (lacking L M) p q)
    (hm : (m.run q.advance).Meets True (fun _ r => Goes M q.advance r) (Breaks M q.advance)) :
    (m.run q.advance).Meets True (fun _ r => Goes L p r) (Breaks L p) := by
  have hnext := goes_next (K := 1) (by rwa [mul_one]) hm
  rwa [lacking_one] at hnext

theorem expect_goes {k : TokenKind} [Printable (token k)] [Printable K]
    (h : Goes (lacking L (token k * K)) p q) (hk : k ≠ .eof) :
    ((expect k).run q).Meets True (fun _ r => Goes (lacking L K) p r) (Breaks L p) :=
  meets_expect (fun hq => h.pass hq hk) fun _ => h.report_peek rfl

/-- A token that ends a rule. -/
theorem expect_goes_last {k : TokenKind} [Printable (token k)] (h : Goes (lacking L (token k)) p q)
    (hk : k ≠ .eof) :
    ((expect k).run q).Meets True (fun _ r => Goes L p r) (Breaks L p) := by
  have hnext := expect_goes (K := 1) (by rwa [mul_one]) hk
  rwa [lacking_one] at hnext

/-- What is known of the reader of expressions that the rules are given. -/
structure Mending (expr : Nat → Parse σ Node) : Prop where
  reads : ReadsExpressions expr
  mends : ∀ (p : Parser σ) (floor : Nat), p.Genuine → Level.lowest.power ≤ floor →
    ((expr floor).run p).Meets True
      (fun _ q => Mends (expressions (min (floor + 1) Level.unary.power)) p q)
      (Breaks (expressions (min (floor + 1) Level.unary.power)) p)

omit [LawfulTokenStream σ] in
theorem Mending.goes (he : Mending expr) (hp : p.Genuine) (hf : Level.lowest.power ≤ floor) :
    ((expr floor).run p).Meets True
      (fun _ q => Goes (expressions (min (floor + 1) Level.unary.power)) p q)
      (Breaks (expressions (min (floor + 1) Level.unary.power)) p) :=
  ((he.reads p floor hp hf).and (he.mends p floor hp hf)).mono
    (fun _ _ hq => ⟨hq.1.1.mono fun _ => mem_expressions, hq.2⟩) fun _ hq => hq.2

omit [LawfulTokenStream σ] in
/-- An expression in a place where any will do. -/
theorem Mending.goes_lowest (he : Mending expr) (hp : p.Genuine) :
    ((expr Level.lowest.power).run p).Meets True (fun _ q => Goes (expressions 0) p q)
      (Breaks (expressions 0) p) :=
  (he.goes hp (Nat.le_refl _)).mono (fun _ _ hq => hq.mono (expressions_lower (Nat.zero_le _)))
    fun _ hq => hq.mono (expressions_lower (Nat.zero_le _))

/-! ### Operations and lists -/

section Rules

variable (he : Mending expr) (hp : p.Genuine)

include he hp

theorem unary_goes (hk : p.current.kind.IsUnary) :
    ((unary expr).run p).Meets True (fun _ q => Goes (expressions Level.unary.power) p q)
      (Breaks (expressions Level.unary.power) p) := by
  have hne : p.current.kind ≠ .eof := by rcases hk with hk | hk <;> simp [hk]
  simp only [unary, meets_bind, meets_current, meets_advance, meets_pure]
  exact goes_last (.token hp hne (unary_lacks hk)) (he.goes hp.advance (by decide))

theorem binary_mends (hk : p.current.kind.IsBinary) (left : Node) :
    ((binary expr left).run p).Meets True
      (fun _ q => Mends (token p.current.kind * expressions (p.current.kind.level.power + 1)) p q)
      (Breaks (token p.current.kind * expressions (p.current.kind.level.power + 1)) p) := by
  have hlevel := hk.level
  have hne := hk.ne_eof
  have hmin : min (p.current.kind.level.power + 1) Level.unary.power =
      p.current.kind.level.power + 1 := Nat.min_eq_left hlevel.2
  have hstart : Goes (lacking (token p.current.kind * expressions (p.current.kind.level.power + 1))
      (expressions (p.current.kind.level.power + 1))) p p :=
    .token hp hne fun us hus => Language.append_mem_mul (singleton_mem_token rfl) hus
  have hright := he.goes hp.advance (Nat.le_of_lt hlevel.1)
  rw [hmin] at hright
  simp only [binary, meets_bind, meets_current, meets_advance, meets_pure]
  exact (goes_last hstart hright).mono (fun _ _ hq => hq.mends) fun _ hq => hq

theorem grouped_goes (hk : p.current.kind = .leftParen) :
    ((grouped expr).run p).Meets True (fun _ q => Goes (expressions floor) p q)
      (Breaks (expressions floor) p) := by
  simp only [grouped, meets_bind, meets_advance, meets_pure]
  refine (goes_next (.token hp (by simp [hk]) (grouped_lacks hk)) (he.goes_lowest hp.advance)).mono
    (fun _ q hq => ?_) fun _ hq => hq
  exact expect_goes_last hq (by decide)

end Rules

theorem lacking_mono {K' : Language Token} (h : K' ≤ K) : lacking L K ≤ lacking L K' :=
  fun _ hts us hus => hts us (h hus)

theorem expressionsRounds_goes (he : Mending expr) (bound : Nat) [Printable K] {before : List Node}
    (hq : Goes (lacking L (moreItems * K)) p q) :
    ((rounds (expressionsRound expr) bound before).run q).Meets True
      (fun _ r => Goes (lacking L K) p r) (Breaks L p) := by
  refine meets_rounds (fun _ q => Goes (lacking L (moreItems * K)) p q) (fun _ => 0)
    (fun items q hq => ?_) hq (.inl trivial)
  rw [expressionsRound, meets_bind, meets_peek]
  split
  · next hc =>
    -- More items are lacking, so a comma, an item and more items are lacking.
    have hcomma : Goes (lacking L (token .comma * (expressions 0 * (moreItems * K)))) p q := by
      refine hq.mono (lacking_mono ?_)
      rw [← mul_assoc, ← mul_assoc, mul_assoc (token .comma)]
      exact mul_le_mul_left comma_mul_moreItems_le K
    have hpass := hcomma.pass hc (by decide)
    simp only [meets_bind, meets_advance, meets_pure]
    exact (goes_next hpass (he.goes_lowest hpass.reads.genuine.advance)).mono
      (fun _ _ hr => ⟨hr, .inl trivial⟩) fun _ hr => hr
  · refine hq.mono (lacking_mono fun ts hts => ?_)
    exact Language.append_mem_mul nil_mem_moreItems hts

/-- A list that ends a rule. -/
theorem expressionList_goes (he : Mending expr) {closing : TokenKind} [Printable (token closing)]
    (h : Goes (lacking L (items * token closing)) p q) (hc : closing ≠ .eof) :
    ((expressionList expr fuel closing).run q).Meets True (fun _ r => Goes L p r) (Breaks L p) := by
  rw [expressionList, meets_bind, meets_peek]
  split
  · next hk =>
    have hclosing : Goes (lacking L (token closing * 1)) p q := by
      refine h.mono (lacking_mono fun ts hts => ?_)
      rw [mul_one] at hts
      exact Language.append_mem_mul nil_mem_items hts
    simp only [meets_bind, meets_advance, meets_pure]
    have hpass := hclosing.pass hk hc
    rwa [lacking_one] at hpass
  · have hfirst : Goes (lacking L (expressions 0 * (moreItems * token closing))) p q := by
      refine h.mono (lacking_mono ?_)
      rw [← mul_assoc]
      exact mul_le_mul_left expressions_mul_moreItems_le _
    simp only [meets_bind, meets_advance, meets_pure]
    refine (goes_next hfirst (he.goes_lowest h.reads.genuine.advance)).mono (fun _ r hr => ?_)
      fun _ hr => hr
    exact (expressionsRounds_goes he _ hr).mono (fun _ _ hr => expect_goes_last hr hc)
      fun _ hr => hr

theorem array_goes (he : Mending expr) (hp : p.Genuine) (hk : p.current.kind = .leftBracket) :
    ((array expr fuel).run p).Meets True (fun _ q => Goes (expressions floor) p q)
      (Breaks (expressions floor) p) := by
  simp only [array, meets_bind, meets_current, meets_pure]
  exact expressionList_goes he (.token hp (by simp [hk]) (array_lacks hk)) (by decide)

theorem call_mends (he : Mending expr) (hp : p.Genuine) (hk : p.current.kind = .leftParen)
    (callee : Node) :
    ((call expr fuel callee).run p).Meets True
      (fun _ q => Mends (token .leftParen * (items * token .rightParen)) p q)
      (Breaks (token .leftParen * (items * token .rightParen)) p) := by
  have hstart : Goes (lacking (token .leftParen * (items * token .rightParen))
      (items * token .rightParen)) p p :=
    .token hp (by simp [hk]) fun us hus => Language.append_mem_mul (singleton_mem_token hk) hus
  simp only [call, meets_bind, meets_current, meets_pure]
  exact (expressionList_goes he hstart (by decide)).mono (fun _ _ hq => hq.mends) fun _ hq => hq

/-! ### Statements -/

theorem optionalSemicolon_mends (h : Mends L p q) {R : Parser σ → Prop} :
    (optionalSemicolon.run q).Meets True (fun _ r => Mends L p r) R := by
  rw [optionalSemicolon, meets_bind, meets_peek]
  split
  · exact h.advance
  · exact h

section Statements

variable (he : Mending expr) (hp : p.Genuine)

include he hp

theorem letStatement_mends (hk : p.current.kind = .letKeyword) :
    ((letStatement expr).run p).Meets True (fun _ q => Mends Phrases.statements p q)
      (Breaks Phrases.statements p) := by
  have hstart := Goes.token hp (by simp [hk]) (letStatement_lacks hk)
  simp only [letStatement, identifier, meets_bind, meets_current, meets_advance, meets_pure]
  refine (expect_goes hstart (by decide)).mono (fun _ q hq => ?_) fun _ hq => hq
  refine (expect_goes hq (by decide)).mono (fun _ q hq => ?_) fun _ hq => hq
  refine (goes_last hq (he.goes_lowest hq.reads.genuine.advance)).mono (fun _ q hq => ?_)
    fun _ hq => hq
  exact optionalSemicolon_mends hq.mends

theorem returnStatement_mends (hk : p.current.kind = .returnKeyword) :
    ((returnStatement expr).run p).Meets True (fun _ q => Mends Phrases.statements p q)
      (Breaks Phrases.statements p) := by
  have hstart := Goes.token hp (by simp [hk]) (returnStatement_lacks hk)
  simp only [returnStatement, meets_bind, meets_current, meets_advance, meets_pure]
  refine (goes_last hstart (he.goes_lowest hp.advance)).mono (fun _ q hq => ?_) fun _ hq => hq
  exact optionalSemicolon_mends hq.mends

theorem statement_mends :
    ((statement expr).run p).Meets True (fun _ q => Mends Phrases.statements p q)
      (Breaks Phrases.statements p) := by
  rw [statement, meets_bind, meets_current]
  split
  · next hk => exact letStatement_mends he hp hk
  · next hk => exact returnStatement_mends he hp hk
  · simp only [expressionStatement, meets_bind, meets_current, meets_pure]
    refine (he.goes_lowest hp).mono (fun _ q hq => ?_) fun _ hq => hq.mono expressions_le_statements
    exact optionalSemicolon_mends (hq.mends.mono expressions_le_statements)

end Statements

/-! ### Sequences of statements -/

/-- A statement behind others. If its first token is the one that is reported, it is left out. -/
theorem Mends.statement {before : List Node} {r : Parser σ} (h : ReadsStatements before p q)
    (hm : Mends sequences p q) (hs : Mends Phrases.statements q r) : Mends sequences p r := by
  by_cases hq : q.diagnostics = []
  · refine ⟨hm.onward.trans hs.onward, hm.diagnostics.trans hs.diagnostics, fun _ d hd => ?_⟩
    obtain ⟨us, ⟨s, hus⟩, huntil⟩ := hs.exists_until hq d hd
    obtain ⟨ts, hts, hfirst⟩ := h.exists_spans hq
    obtain ⟨begun, behind, rest, rfl, hup, -⟩ := id huntil
    cases begun with
    | nil =>
      -- The statement has not been begun, and need not be.
      have hcurrent : d.token = q.current := (current_of_upcoming hup).symm
      have hnone : q.Until d.token [] := hcurrent ▸ until_current q (by simp)
      refine ⟨ts ++ [], ⟨before ++ [], hfirst [] [] .noStatements (by simp)⟩, ?_⟩
      exact hnone.of_spans hts hm.onward.suffix
    | cons t begun =>
      -- It has been, and its first token is the one that the statements before it allow for.
      refine ⟨ts ++ (t :: begun ++ behind), ⟨before ++ [s], hfirst [s] _ ?_ ?_⟩, ?_⟩
      · have hlast : Spells (.statements [s]) ((t :: begun ++ behind) ++ []) :=
          .unterminated hus (by simp) .noStatements
        rwa [List.append_nil] at hlast
      · intro u hu
        rw [current_of_upcoming hup]
        exact (Option.some.inj hu).symm
      · exact huntil.of_spans hts hm.onward.suffix
  · exact hm.later hq hs.onward hs.diagnostics

/-- What any action does to a parser. -/
theorem Built.onward {j : Bool} {b c : Stage} {m : Parse σ α} (h : Built j b c m)
    (hp : p.Genuine) : (m.run p).Meets True (fun _ q => Onward p q) (Onward p) :=
  h.keeps (kept_onward p) (.refl hp)

theorem statementsRound_mends (he : Mending expr) (fuel : Nat) (ends : TokenKind → Bool)
    {before : List Node} (h : ReadsStatements before p q) (hm : Mends sequences p q)
    {R : Parser σ → Prop} :
    ((statementsRound expr fuel ends before).run q).Meets True
      (fun _ r => Mends sequences p r) R := by
  rw [statementsRound, meets_bind, meets_current]
  split
  · exact hm
  · simp only [meets_bind, meets_attempt]
    refine (statement_mends he h.genuine).mono (fun s r hr => ?_) fun r hr => ?_
    · exact (Mends.statement h hm hr).advance
    · -- What the rejection has reported stays the first report: skipping reports nothing.
      have hstatement : Mends sequences p r := Mends.statement h hm hr.mends
      have hg : r.drop.Genuine := hr.mends.onward.genuine
      have hbuilt : Built true .reported .reported (synchronize (σ := σ) fuel) :=
        (synchronize_parallel (τ := σ) fuel fuel).built_left
      refine ((synchronize_keeps hg fuel).and (hbuilt.onward hg)).mono (fun b r' hr' => ?_)
        fun _ hr' => hr'.1
      have hskipped : Mends sequences p r' :=
        hstatement.later hr.reported ⟨hr'.2.genuine, hr'.2.suffix⟩ (hr'.1.2 ▸ List.prefix_rfl)
      split
      · exact hskipped
      · exact hskipped.advance

theorem statements_mends (he : Mending expr) (hp : p.Genuine) {ends : TokenKind → Bool}
    (heof : ends .eof = true) {R : Parser σ → Prop} :
    ((statements expr fuel ends).run p).Meets True (fun _ q => Mends sequences p q) R := by
  refine meets_rounds (fun before q => ReadsStatements before p q ∧ Mends sequences p q)
    (fun _ => 0) (fun before q hq => ?_) ⟨.refl hp, mends_of_diagnostics_eq (.refl hp) rfl⟩
    (.inl trivial)
  have hmends := statementsRound_mends he fuel ends hq.1 hq.2 (R := R)
  refine ((statementsRound_reads he.reads heof hq.1 (R := R)).and hmends).mono (fun x r hr => ?_)
    fun _ hr => hr.1
  cases x with
  | next before' => exact ⟨⟨hr.1, hr.2⟩, .inl trivial⟩
  | stop body => exact hr.2

/-! ### Blocks -/

theorem block_goes (he : Mending expr) (hp : p.Genuine) (hk : p.current.kind = .leftBrace)
    {R : Parser σ → Prop} :
    ((block expr fuel).run p).Meets True (fun _ q => Goes blocks p q) R := by
  suffices hmends : ((block expr fuel).run p).Meets True (fun _ q => Mends blocks p q) R from
    ((block_reads he.reads hp hk (R := R)).and hmends).mono
      (fun b q hq => ⟨hq.1.mono fun ts hts => ⟨b, hts⟩, hq.2⟩) fun _ hq => hq.2
  have hstart := Goes.token hp (by simp [hk]) (block_lacks hk)
  simp only [block, meets_bind, meets_current, meets_advance, meets_closeBlock, meets_pure]
  refine (statements_mends he hp.advance rfl).mono (fun body q hq => ?_) fun _ hq => hq
  -- Behind what was read and completed of the body, the closing brace is lacking.
  have hbody : Mends (lacking blocks (token .rightBrace)) p q :=
    (hstart.mends.append (K := sequences) fun ts hts us hus => append_mem_lacking hts hus).extend
      hstart.reads hq fun ts us hts hus => append_mem_lacking hts hus
  have hclosed : Mends blocks p q := hbody.append fun ts hts us hus => hts us hus
  refine ⟨⟨(genuine_closeBlock q).2 hq.onward.genuine, ?_⟩, ?_, fun hnone d hd => ?_⟩
  · rw [upcoming_closeBlock]
    exact hclosed.onward.suffix
  · rw [diagnostics_closeBlock]
    exact hclosed.diagnostics
  · rw [Reports, diagnostics_closeBlock] at hd
    exact hclosed.exists_until hnone d hd

/-- A block where a rule expects one. -/
theorem expect_block_goes (he : Mending expr) (fuel : Nat) [Printable K]
    (h : Goes (lacking L (blocks * K)) p q) :
    ((expect .leftBrace).run q).Meets True
      (fun _ r => ((block expr fuel).run r).Meets True (fun _ r => Goes (lacking L K) p r)
        (Breaks L p)) (Breaks L p) := by
  refine meets_expect (fun hk => ?_) fun _ => h.report_peek rfl
  exact goes_next h (block_goes he h.reads.genuine.advance hk)

/-- A block that ends a rule. -/
theorem expect_block_goes_last (he : Mending expr) (fuel : Nat) (h : Goes (lacking L blocks) p q) :
    ((expect .leftBrace).run q).Meets True
      (fun _ r => ((block expr fuel).run r).Meets True (fun _ r => Goes L p r) (Breaks L p))
      (Breaks L p) := by
  have hblock := expect_block_goes (K := 1) he fuel (by rwa [mul_one])
  rwa [lacking_one] at hblock

/-! ### Conditionals and functions -/

theorem alternative_goes (he : Mending expr)
    (h : Goes (lacking L (1 + token .elseKeyword * blocks)) p q) :
    ((alternative expr fuel).run q).Meets True (fun _ r => Goes L p r) (Breaks L p) := by
  rw [alternative, meets_bind, meets_peek]
  split
  · next hk =>
    have helse : Goes (lacking L (token .elseKeyword * blocks)) p q :=
      h.mono (lacking_mono fun ts hts => .inr hts)
    simp only [meets_bind, meets_advance, meets_pure]
    exact expect_block_goes_last he fuel (helse.pass hk (by decide))
  · exact h.mono fun ts hts => List.append_nil ts ▸ hts [] (.inl rfl)

theorem conditional_goes (he : Mending expr) (hp : p.Genuine) (hk : p.current.kind = .ifKeyword) :
    ((conditional expr fuel).run p).Meets True (fun _ q => Goes (expressions floor) p q)
      (Breaks (expressions floor) p) := by
  have hstart := Goes.token (L := lacking (expressions floor) _) hp (by simp [hk])
    (conditional_lacks hk)
  simp only [conditional, meets_bind, meets_current, meets_advance, meets_pure]
  -- The condition, in its parentheses.
  refine (expect_goes hstart (by decide)).mono (fun _ q hq => ?_) fun _ hq => hq
  have hcondition := he.goes_lowest hq.reads.genuine.advance
  refine (goes_next hq hcondition).mono (fun _ q hq => ?_) fun _ hq => hq
  refine (expect_goes hq (by decide)).mono (fun _ q hq => ?_) fun _ hq => hq
  -- The blocks.
  refine (expect_block_goes he fuel hq).mono (fun _ q hq => ?_) fun _ hq => hq
  refine hq.mono (fun _ q hq => ?_) fun _ hq => hq
  exact alternative_goes he hq

theorem parametersRounds_goes (bound : Nat) [Printable K] {before : List Node}
    (hq : Goes (lacking L (moreNames * K)) p q) :
    ((rounds parametersRound bound before).run q).Meets True
      (fun _ r => Goes (lacking L K) p r) (Breaks L p) := by
  refine meets_rounds (fun _ q => Goes (lacking L (moreNames * K)) p q) (fun _ => 0)
    (fun names q hq => ?_) hq (.inl trivial)
  rw [parametersRound, meets_bind, meets_peek]
  split
  · next hc =>
    have hcomma : Goes (lacking L (token .comma * (token .identifier * (moreNames * K)))) p q := by
      refine hq.mono (lacking_mono ?_)
      rw [← mul_assoc, ← mul_assoc, mul_assoc (token .comma)]
      exact mul_le_mul_left comma_mul_moreNames_le K
    simp only [identifier, meets_bind, meets_advance, meets_current, meets_pure]
    exact (expect_goes (hcomma.pass hc (by decide)) (by decide)).mono
      (fun _ _ hr => ⟨hr, .inl trivial⟩) fun _ hr => hr
  · refine hq.mono (lacking_mono fun ts hts => ?_)
    exact Language.append_mem_mul nil_mem_moreNames hts

theorem parameters_goes [Printable K]
    (h : Goes (lacking L (names * (token .rightParen * K))) p q) :
    ((parameters fuel).run q).Meets True (fun _ r => Goes (lacking L K) p r) (Breaks L p) := by
  rw [parameters, meets_bind, meets_peek]
  split
  · next hk =>
    have hclose : Goes (lacking L (token .rightParen * K)) p q :=
      h.mono (lacking_mono fun ts hts => Language.append_mem_mul nil_mem_names hts)
    exact hclose.pass hk (by decide)
  · have hfirst :
        Goes (lacking L (token .identifier * (moreNames * (token .rightParen * K)))) p q := by
      refine h.mono (lacking_mono ?_)
      rw [← mul_assoc]
      exact mul_le_mul_left token_mul_moreNames_le _
    simp only [identifier, meets_bind, meets_current, meets_pure]
    refine (expect_goes hfirst (by decide)).mono (fun _ r hr => ?_) fun _ hr => hr
    refine (parametersRounds_goes fuel hr).mono (fun _ r hr => ?_) fun _ hr => hr
    exact expect_goes hr (by decide)

theorem function_goes (he : Mending expr) (hp : p.Genuine)
    (hk : p.current.kind = .functionKeyword) :
    ((function expr fuel).run p).Meets True (fun _ q => Goes (expressions floor) p q)
      (Breaks (expressions floor) p) := by
  have hstart := Goes.token (L := lacking (expressions floor) _) hp (by simp [hk])
    (function_lacks hk)
  simp only [function, meets_bind, meets_current, meets_pure]
  refine (expect_goes hstart (by decide)).mono (fun _ q hq => ?_) fun _ hq => hq
  refine (parameters_goes hq).mono (fun _ q hq => ?_) fun _ hq => hq
  exact expect_block_goes_last he fuel hq

/-! ### Expressions -/

/-- The rules for the first token of an expression. -/
theorem prefixRule_goes (he : Mending expr) (hp : p.Genuine) {rule : Parse σ Node}
    (hr : prefixRule expr fuel p.current.kind = some rule) :
    (rule.run p).Meets True (fun _ q => Goes (expressions Level.unary.power) p q)
      (Breaks (expressions Level.unary.power) p) := by
  have hne := (plain_of_prefixRule hr).1
  unfold prefixRule at hr
  split at hr <;> cases hr
  · next hk => exact Goes.token hp hne ⟨_, .identifier hk⟩
  · next hk =>
    rw [integer, meets_bind, meets_current]
    split
    · next n hn => exact Goes.token hp hne ⟨_, .integer hk hn⟩
    · exact breaks_report hp rfl
  · next hk => exact Goes.token hp hne ⟨_, .trueLiteral hk⟩
  · next hk => exact Goes.token hp hne ⟨_, .falseLiteral hk⟩
  · next hk => exact Goes.token hp hne ⟨_, .string hk⟩
  · next hk => exact unary_goes he hp (.inl hk)
  · next hk => exact unary_goes he hp (.inr hk)
  · next hk => exact grouped_goes he hp hk
  · next hk => exact array_goes he hp hk
  · next hk => exact conditional_goes he hp hk
  · next hk => exact function_goes he hp hk

/-- What follows a left operand. The operand has been read without a diagnostic, and satisfies the
level of the operator, or else there is nothing more to complete. -/
theorem infixRule_mends (he : Mending expr) {left : Node} {rule : Node → Parse σ Node}
    (hr : Reads (Spells (.expression q.peek.kind.level.power left)) p q)
    (hm : Mends (expressions floor) p q) (hf : floor ≤ q.peek.kind.level.power)
    (hrule : infixRule expr fuel q.peek.kind = some rule) :
    ((rule left).run q.advance).Meets True (fun _ r => Mends (expressions floor) p r)
      (Breaks (expressions floor) p) := by
  -- Whatever the operator and what follows it are completed to, the operand stands before it.
  have hextend {L : Language Token}
      (h : ((rule left).run q.advance).Meets True (fun _ r => Mends L q.advance r)
        (Breaks L q.advance))
      (hL : ∀ ts us, Spells (.expression q.peek.kind.level.power left) ts → us ∈ L →
        ts ++ us ∈ expressions floor) :
      ((rule left).run q.advance).Meets True (fun _ r => Mends (expressions floor) p r)
        (Breaks (expressions floor) p) :=
    h.mono (fun _ r hr' => hm.extend hr hr' hL)
      fun r hr' => ⟨hm.extend hr hr'.mends hL, hr'.reported⟩
  rcases infixRule_cases hrule with ⟨hbin, rfl⟩ | ⟨hparen, rfl⟩
  -- The completion begins with some operator of the kind that has been read.
  · refine hextend (binary_mends he hr.genuine.advance hbin left) ?_
    rintro ts _ hts ⟨_, ⟨op, hop, rfl⟩, us, ⟨right, hright⟩, rfl⟩
    rw [current_advance] at hop hright
    rw [← hop] at hf hbin hts hright
    exact ⟨_, .binary hf hbin hts hright⟩
  · refine hextend (call_mends he hr.genuine.advance hparen left) ?_
    rintro ts _ hts ⟨_, ⟨opening, ho, rfl⟩, _, ⟨us, ⟨es, hes⟩, _, ⟨close, hc, rfl⟩, rfl⟩, rfl⟩
    rw [hparen] at hts hf
    exact ⟨_, .call hf ho hts hes hc⟩

/-- One round of the loop over operators. -/
theorem operatorsRound_mends (he : Mending expr) {left : Node}
    (hr : Reads (Spells (.expression
      (max (min (floor + 1) Level.unary.power) q.peek.kind.level.power) left)) p q)
    (hm : Mends (expressions (min (floor + 1) Level.unary.power)) p q) :
    ((operatorsRound expr fuel floor left).run q).Meets True
      (fun _ r => Mends (expressions (min (floor + 1) Level.unary.power)) p r)
      (Breaks (expressions (min (floor + 1) Level.unary.power)) p) := by
  have hlevel : Reads (Spells (.expression q.peek.kind.level.power left)) p q :=
    hr.mono fun ts h => h.lower (Nat.le_max_right _ _)
  rw [operatorsRound, meets_bind, meets_peek]
  split
  · next hk =>
    split
    · exact hm
    · next rule hrule =>
      simp only [meets_bind, meets_advance, meets_pure]
      have hmin : min (floor + 1) Level.unary.power ≤ q.peek.kind.level.power :=
        Nat.le_trans (Nat.min_le_left _ _) hk.2
      exact infixRule_mends he hlevel hm hmin hrule
  · exact hm

/-- The loop over operators. -/
theorem operatorsRounds_mends (he : Mending expr) (bound : Nat) (hf : Level.lowest.power ≤ floor)
    {left : Node} (hr : Reads (Spells (.expression
      (max (min (floor + 1) Level.unary.power) q.peek.kind.level.power) left)) p q)
    (hm : Mends (expressions (min (floor + 1) Level.unary.power)) p q) :
    ((rounds (operatorsRound expr fuel floor) bound left).run q).Meets True
      (fun _ r => Mends (expressions (min (floor + 1) Level.unary.power)) p r)
      (Breaks (expressions (min (floor + 1) Level.unary.power)) p) := by
  refine meets_rounds (fun left q => Reads (Spells (.expression
    (max (min (floor + 1) Level.unary.power) q.peek.kind.level.power) left)) p q ∧
    Mends (expressions (min (floor + 1) Level.unary.power)) p q) (fun _ => 0)
    (fun left q hq => ?_) ⟨hr, hm⟩ (.inl trivial)
  -- That the operand satisfies the level of the next operator is kept by what is known of rounds
  -- that are read without a diagnostic.
  refine ((operatorsRound_reads he.reads hf hq.1).and (operatorsRound_mends he hq.1 hq.2)).mono
    (fun x r hr => ?_) fun _ hr => hr.2
  cases x with
  | next e => exact ⟨⟨hr.1, hr.2⟩, .inl trivial⟩
  | stop e => exact hr.2

/-- **Expressions.** What has been read of one, up to the first token reported, can be completed. -/
theorem expression_mending (N : Nat) : Mending (σ := σ) (expression N) := by
  induction N with
  | zero => exact ⟨expression_reads 0, fun p floor hp hf => trivial⟩
  | succ N ih =>
    refine ⟨expression_reads (N + 1), fun p floor hp hf => ?_⟩
    rw [expression, meets_bind, meets_current]
    split
    · exact breaks_report hp rfl
    · next rule hrule =>
      have hle : min (floor + 1) Level.unary.power ≤ Level.unary.power := Nat.min_le_right _ _
      rw [meets_bind]
      refine ((prefixRule_reads ih.reads hp hrule).and (prefixRule_goes ih hp hrule)).mono
        (fun left q hq => ?_) fun _ hq => hq.2.mono (expressions_lower hle)
      refine operatorsRounds_mends ih _ hf (hq.1.mono fun ts h => h.lower ?_)
        (hq.2.mends.mono (expressions_lower hle))
      exact Nat.max_le.2 ⟨Nat.le_trans hle (Nat.le_max_left _ _), Nat.le_max_right _ _⟩

end Parse

end MonkeySyntax
