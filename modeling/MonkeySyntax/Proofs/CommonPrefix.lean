import Mathlib.Data.List.Forall2
import MonkeySyntax.Proofs.Reachable
import MonkeySyntax.Proofs.Reading

/-!
# What the first diagnostic depends on

Two texts begin alike, up to and including some token that is not the end. If reading the one
reports one of these tokens before any other, so does reading the other one: the decision depends on
nothing that comes later.

As long as both runs have looked at common tokens only, they do the same (`Parse.Together`). This
comes to an end in one of two ways (`Parse.EndsTogether`). One is that something is reported, and
then both runs report it. The other is that the runs look beyond the common tokens. From then on
they may go different ways, but neither has anything more to say about a common token
(`Parse.Past`): the current token is reported only before the one behind it has been looked at,
which is what the stages of an action keep account of.
-/

namespace MonkeySyntax

open TokenStream (toList)

/-- The first tokens of the two lists look alike, up to the index `i`, and are followed by others.
-/
structure Common (i : Nat) (ts us : List Token) : Prop where
  looksLike : List.Forall₂ Token.LooksLike (ts.take (i + 1)) (us.take (i + 1))
  left : i + 1 < ts.length
  right : i + 1 < us.length

theorem exists_looksLike_of_forall₂ {ts us : List Token} {k : Nat} {t : Token}
    (h : List.Forall₂ Token.LooksLike ts us) (ht : ts[k]? = some t) :
    ∃ u, us[k]? = some u ∧ t.LooksLike u := by
  obtain ⟨hlt, rfl⟩ := List.getElem?_eq_some_iff.1 ht
  have hlt' : k < us.length := h.length_eq ▸ hlt
  exact ⟨us[k], List.getElem?_eq_getElem hlt', h.get hlt hlt'⟩

theorem Common.exists_looksLike {i k : Nat} {ts us : List Token} (h : Common i ts us) (hk : k ≤ i) :
    ∃ t u, ts[k]? = some t ∧ us[k]? = some u ∧ t.LooksLike u := by
  have hlt : k < i + 1 := Nat.lt_succ_of_le hk
  obtain ⟨t, ht⟩ : ∃ t, ts[k]? = some t :=
    ⟨_, List.getElem?_eq_getElem (Nat.lt_trans hlt h.left)⟩
  obtain ⟨u, hu, hlooks⟩ := exists_looksLike_of_forall₂ h.looksLike (k := k)
    (by rw [List.getElem?_take_of_lt hlt, ht])
  rw [List.getElem?_take_of_lt hlt] at hu
  exact ⟨t, u, ht, hu, hlooks⟩

namespace Parse

open MonkeySyntax.Parser

namespace Stage

variable {b : Stage} {i k : Nat}

/-- At this stage, with the index `k`, no token behind the index `i` has been looked at. -/
def Within : Stage → (i k : Nat) → Prop
  | fresh, i, k => k ≤ i
  | settled, i, k => k < i
  | reported, _, _ => False

/-- At this stage, with the index `k`, no token up to the index `i` will be reported any more. -/
def Beyond : Stage → (i k : Nat) → Prop
  | fresh, i, k => i < k
  | settled, i, k => i ≤ k
  | reported, _, _ => False

/-- The next token lies within as well, or this is the last one that does. -/
theorem Within.lt_or_eq (h : b.Within i k) : k < i ∧ b.look = settled ∨ k = i ∧ b = fresh := by
  cases b with
  | fresh => exact (Nat.lt_or_eq_of_le h).imp (fun h => ⟨h, rfl⟩) fun h => ⟨h, rfl⟩
  | settled => exact .inl ⟨h, rfl⟩
  | reported => exact h.elim

theorem Within.move_eq (h : b.Within i k) : b.move = fresh := by
  cases b with
  | fresh => rfl
  | settled => rfl
  | reported => exact h.elim

theorem Beyond.look (h : b.Beyond i k) : b.look.Beyond i k := by
  cases b with
  | fresh => exact Nat.le_of_lt h
  | settled => exact h
  | reported => exact h.elim

theorem Beyond.move (h : b.Beyond i k) : b.move.Beyond i (k + 1) := by
  cases b with
  | fresh => exact Nat.lt_succ_of_lt h
  | settled => exact Nat.lt_succ_of_le h
  | reported => exact h.elim

/-- The token behind the current one is not among those up to the index. -/
theorem Beyond.lt_succ (h : b.Beyond i k) : i < k + 1 := by
  cases b with
  | fresh => exact Nat.lt_succ_of_lt h
  | settled => exact Nat.lt_succ_of_le h
  | reported => exact h.elim

end Stage

/-! ### Beyond an index -/

section Past

variable {σ α : Type} [TokenStream σ] {s : σ} {i : Nat} {b c : Stage} {p : Parser σ}

/-- None of the tokens up to the index is the first to be reported. -/
structure Past (s : σ) (i : Nat) (b : Stage) (p : Parser σ) : Prop where
  reachable : p.Reachable s
  first : p.diagnostics = [] ∧ b.Beyond i p.index ∨
    ∃ d, p.Reports d ∧ d.token ∈ (toList s).drop (i + 1)

theorem Past.advance (h : Past s i b p) : Past s i b.move p.advance :=
  ⟨h.reachable.advance, h.first.imp_left fun hp => ⟨hp.1, hp.2.move⟩⟩

theorem Past.look (h : Past s i b p) : Past s i b.look p :=
  ⟨h.reachable, h.first.imp_left fun hp => ⟨hp.1, hp.2.look⟩⟩

theorem Past.closeBlock (h : Past s i b p) : Past s i b p.closeBlock := by
  refine ⟨h.reachable.closeBlock, ?_⟩
  simp only [Reports, diagnostics_closeBlock, index_closeBlock]
  exact h.first

theorem Past.report (h : Past s i b p) {d : Diagnostic}
    (hd : b.Beyond i p.index → d.token ∈ (toList s).drop (i + 1)) :
    Past s i .reported (p.report d) := by
  refine ⟨h.reachable.report d, .inr ?_⟩
  rcases h.first with ⟨hclean, hbeyond⟩ | ⟨d', hd', hmem⟩
  · exact ⟨d, by rw [Reports, diagnostics_report, hclean]; rfl, hd hbeyond⟩
  · exact ⟨d', hd'.of_prefix (List.prefix_append _ _), hmem⟩

/-- Once something has been reported, the stage does not matter. -/
theorem Past.of_reported (h : Past s i .reported p) : Past s i b p :=
  ⟨h.reachable, .inr (h.first.resolve_left fun hp => hp.2)⟩

variable [LawfulTokenStream σ]

theorem Past.report_peek (h : Past s i b p) (hlt : i + 1 < (toList s).length) (kind : TokenKind) :
    Past s i .reported (p.report (.expected kind p.peek)) :=
  h.report fun hbeyond => h.reachable.advance.current_mem_drop hbeyond.lt_succ hlt

/-- **An action keeps to what is past.** It reports none of the tokens up to the index. -/
theorem Built.past {j : Bool} {m : Parse σ α} (h : Built j b c m)
    (hlt : i + 1 < (toList s).length) (hp : Past s i b p) :
    (m.run p).Meets True (fun _ q => Past s i c q) (Past s i .reported) := by
  induction h generalizing p with
  | pure a => exact hp
  | bind _ _ ihm ihf =>
    rw [meets_bind]
    exact (ihm hp).mono (fun a q hq => ihf a hq) fun _ hq => hq
  | current => exact hp
  | peek => exact hp.look
  | onClosed => exact hp
  | advance => exact hp.advance
  | closeBlock => exact hp.closeBlock
  | expect kind => exact meets_expect (fun _ => hp.advance) fun _ => hp.report_peek hlt kind
  | judge passes _ hfails ih =>
    rw [meets_bind, meets_current]
    by_cases ht : passes p.current
    · exact ih _ ht hp
    · obtain ⟨d, hd⟩ := hfails _ ht
      rw [hd]
      -- As long as the current token may be reported, it lies behind the index.
      refine hp.report fun hbeyond => ?_
      rw [d.token_about]
      exact hp.reachable.current_mem_drop hbeyond hlt
  | attempt _ _ _ ihm ihsome ihnone =>
    rw [meets_bind, meets_attempt]
    -- Dropping a statement changes neither the place nor the diagnostics.
    exact (ihm hp).mono (fun a q hq => ihsome a hq) fun q hq =>
      ihnone ⟨hq.reachable.drop, hq.first⟩
  | @braces _ b' _ _ _ _ _ _ _ _ ihf ihg =>
    rw [meets_bind]
    refine meets_expect (fun _ => ?_) fun _ => hp.report_peek hlt _
    rw [meets_bind, meets_bind, meets_current, meets_bind, meets_advance]
    -- The body begins two tokens further on, and may report the token it begins with.
    have hbody : Past s i .fresh p.advance.advance := by
      refine ⟨hp.reachable.advance.advance, hp.first.imp_left fun h => ⟨h.1, ?_⟩⟩
      exact Nat.lt_succ_of_lt h.2.lt_succ
    exact (ihf _ hbody).mono (fun a q hq => ihg a hq) fun _ hq => hq
  | outOfFuel => trivial
  | settle _ ih =>
    exact (ih hp).mono (fun _ q hq => hq.look) fun _ hq => hq
  | forget _ ih => exact (ih hp).mono (fun _ q hq => hq.of_reported) fun _ hq => hq

end Past

/-! ### Two runs side by side -/

section Sides

variable {σ τ α β : Type} [TokenStream σ] [TokenStream τ] {s : σ} {s' : τ} {i : Nat}
  {b c e : Stage} {p : Parser σ} {p' : Parser τ}

/-- The two parsers have come the same way along common tokens. -/
structure Together (s : σ) (s' : τ) (i : Nat) (b : Stage) (p : Parser σ) (p' : Parser τ) :
    Prop where
  left : p.Reachable s
  right : p'.Reachable s'
  index_eq : p'.index = p.index
  left_clean : p.diagnostics = []
  right_clean : p'.diagnostics = []
  within : b.Within i p.index

/-- How two actions end that were begun together. -/
inductive EndsTogether (s : σ) (s' : τ) (i : Nat) (c : Stage) (R : α → α → Prop)
    (o : Outcome σ α) (o' : Outcome τ α) : Prop where
  /-- They are done together. -/
  | done (a a' : α) (q : Parser σ) (q' : Parser τ) : o = .done a q → o' = .done a' q' → R a a' →
      Together s s' i c q q' → EndsTogether s s' i c R o o'
  | outOfFuel : o = .outOfFuel ∨ o' = .outOfFuel → EndsTogether s s' i c R o o'
  /-- Both have reported the same thing about tokens of one index. -/
  | reported (k : Nat) (d : Diagnostic) (t' : Token) : k ≤ i →
      (toList s)[k]? = some d.token → (toList s')[k]? = some t' →
      o.Meets True (fun _ q => q.Reports d) (Parser.Reports d) →
      o'.Meets True (fun _ q => q.Reports (d.about t')) (Parser.Reports (d.about t')) →
      EndsTogether s s' i c R o o'
  /-- Both have left the common tokens behind. -/
  | past : o.Meets True (fun _ q => Past s i c q) (Past s i .reported) →
      o'.Meets True (fun _ q => Past s' i c q) (Past s' i .reported) →
      EndsTogether s s' i c R o o'

variable {R : α → α → Prop} {S : β → β → Prop} [LawfulTokenStream σ] [LawfulTokenStream τ]

/-- One action after another. -/
theorem EndsTogether.bind {j : Bool} {m : Parse σ α} {m' : Parse τ α} {f : α → Parse σ β}
    {f' : α → Parse τ β} (hs : Common i (toList s) (toList s'))
    (h : EndsTogether s s' i c R (m.run p) (m'.run p')) (hb : ∀ a, Built j c e (f a))
    (hb' : ∀ a, Built j c e (f' a))
    (hf : ∀ a a' q q', R a a' → Together s s' i c q q' →
      EndsTogether s s' i e S ((f a).run q) ((f' a').run q')) :
    EndsTogether s s' i e S ((m >>= f).run p) ((m' >>= f').run p') := by
  cases h with
  | done a a' q q' ho ho' ha hq =>
    rw [run_bind_of_done ho, run_bind_of_done ho']
    exact hf a a' q q' ha hq
  | outOfFuel h => exact .outOfFuel (h.imp run_bind_of_outOfFuel run_bind_of_outOfFuel)
  | reported k d t' hk ht ht' ho ho' =>
    refine .reported k d t' hk ht ht' ?_ ?_
    · rw [meets_bind]
      exact ho.mono (fun a q hq => (hb a).reports hq) fun _ hq => hq
    · rw [meets_bind]
      exact ho'.mono (fun a q hq => (hb' a).reports hq) fun _ hq => hq
  | past ho ho' =>
    refine .past ?_ ?_
    · rw [meets_bind]
      exact ho.mono (fun a q hq => (hb a).past hs.left hq) fun _ hq => hq
    · rw [meets_bind]
      exact ho'.mono (fun a q hq => (hb' a).past hs.right hq) fun _ hq => hq

/-- An action that is attempted, and one that follows. If the first has rejected the text, something
has been reported, so the two sides are not together any more. -/
theorem EndsTogether.attempt {j : Bool} {m : Parse σ α} {m' : Parse τ α}
    {f : Option α → Parse σ β} {f' : Option α → Parse τ β} (hs : Common i (toList s) (toList s'))
    (h : EndsTogether s s' i c R (m.run p) (m'.run p')) (hb : ∀ a, Built j c e (f (some a)))
    (hb' : ∀ a, Built j c e (f' (some a))) (hnone : Built j .reported e (f none))
    (hnone' : Built j .reported e (f' none))
    (hf : ∀ a a' q q', R a a' → Together s s' i c q q' →
      EndsTogether s s' i e S ((f (some a)).run q) ((f' (some a')).run q')) :
    EndsTogether s s' i e S ((Parse.attempt m >>= f).run p) ((Parse.attempt m' >>= f').run p') := by
  cases h with
  | done a a' q q' ho ho' ha hq =>
    have hm : (Parse.attempt m).run p = .done (some a) q := by rw [run_attempt, ho]
    have hm' : (Parse.attempt m').run p' = .done (some a') q' := by rw [run_attempt, ho']
    rw [run_bind_of_done hm, run_bind_of_done hm']
    exact hf a a' q q' ha hq
  | outOfFuel h =>
    refine .outOfFuel (h.imp (fun h => ?_) fun h => ?_)
    · exact run_bind_of_outOfFuel (by rw [run_attempt, h])
    · exact run_bind_of_outOfFuel (by rw [run_attempt, h])
  | reported k d t' hk ht ht' ho ho' =>
    refine .reported k d t' hk ht ht' ?_ ?_
    · rw [meets_bind, meets_attempt]
      exact ho.mono (fun a q hq => (hb a).reports hq) fun q hq => hnone.reports hq
    · rw [meets_bind, meets_attempt]
      exact ho'.mono (fun a q hq => (hb' a).reports hq) fun q hq => hnone'.reports hq
  | past ho ho' =>
    refine .past ?_ ?_
    · rw [meets_bind, meets_attempt]
      exact ho.mono (fun a q hq => (hb a).past hs.left hq) fun q hq =>
        hnone.past hs.left ⟨hq.reachable.drop, hq.first⟩
    · rw [meets_bind, meets_attempt]
      exact ho'.mono (fun a q hq => (hb' a).past hs.right hq) fun q hq =>
        hnone'.past hs.right ⟨hq.reachable.drop, hq.first⟩

/-! #### Primitive actions -/

section Primitive

variable (hs : Common i (toList s) (toList s')) (hp : Together s s' i b p p')

include hs hp

theorem Together.exists_current : ∃ k ≤ i, (toList s)[k]? = some p.current ∧
    (toList s')[k]? = some p'.current ∧ p.current.LooksLike p'.current := by
  have hk : p.index ≤ i := by
    rcases hp.within.lt_or_eq with ⟨hlt, -⟩ | ⟨heq, -⟩
    · exact Nat.le_of_lt hlt
    · exact Nat.le_of_eq heq
  obtain ⟨t, u, ht, hu, hlooks⟩ := hs.exists_looksLike hk
  rw [hp.left.current_eq ht, hp.right.current_eq (hp.index_eq ▸ hu)]
  exact ⟨p.index, hk, ht, hu, hlooks⟩

omit hs [LawfulTokenStream σ] [LawfulTokenStream τ] in
theorem Together.advance (hlt : p.index < i) : Together s s' i b.move p.advance p'.advance where
  left := hp.left.advance
  right := hp.right.advance
  index_eq := congrArg Nat.succ hp.index_eq
  left_clean := hp.left_clean
  right_clean := hp.right_clean
  within := by
    rw [hp.within.move_eq]
    exact hlt

omit hs [LawfulTokenStream σ] [LawfulTokenStream τ] in
/-- On the last common token, whoever looks at the next one has left them behind. -/
theorem Together.past (heq : p.index = i) : Past s i .settled p ∧ Past s' i .settled p' :=
  ⟨⟨hp.left, .inl ⟨hp.left_clean, Nat.le_of_eq heq.symm⟩⟩,
    ⟨hp.right, .inl ⟨hp.right_clean, Nat.le_of_eq (hp.index_eq.trans heq).symm⟩⟩⟩

theorem Together.reject {d : Diagnostic} :
    EndsTogether s s' i c R ((reject (d.about p.current)).run p)
      ((reject (d.about p'.current)).run p') := by
  obtain ⟨k, hk, ht, hu, -⟩ := hp.exists_current hs
  refine .reported k (d.about p.current) p'.current hk (by rw [d.token_about, ht]) hu ?_ ?_
  · rw [meets_reject, Reports, diagnostics_report, hp.left_clean]
    rfl
  · rw [meets_reject, Reports, diagnostics_report, hp.right_clean]
    cases d <;> rfl

theorem Together.run_peek :
    EndsTogether s s' i b.look Token.LooksLike (peek.run p) (peek.run p') := by
  rcases hp.within.lt_or_eq with ⟨hlt, hlook⟩ | ⟨heq, rfl⟩
  -- The next token is another common one, or the current token is the last of them.
  · obtain ⟨-, -, -, -, hlooks⟩ := (hp.advance hlt).exists_current hs
    refine .done _ _ p p' rfl rfl hlooks ⟨hp.left, hp.right, hp.index_eq, hp.left_clean,
      hp.right_clean, ?_⟩
    rw [hlook]
    exact hlt
  · exact .past (hp.past heq).1 (hp.past heq).2

omit hs [LawfulTokenStream σ] [LawfulTokenStream τ] in
theorem Together.run_advance : EndsTogether s s' i b.move Eq
    (Parse.advance.run p) (Parse.advance.run p') := by
  rcases hp.within.lt_or_eq with ⟨hlt, -⟩ | ⟨heq, rfl⟩
  · exact .done _ _ _ _ rfl rfl rfl (hp.advance hlt)
  · exact .past (hp.past heq).1.advance (hp.past heq).2.advance

theorem Together.run_expect (kind : TokenKind) :
    EndsTogether s s' i b.move Eq ((expect kind).run p) ((expect kind).run p') := by
  rcases hp.within.lt_or_eq with ⟨hlt, -⟩ | ⟨heq, rfl⟩
  · have hnext := hp.advance hlt
    obtain ⟨k, hk, ht, hu, hlooks⟩ := hnext.exists_current hs
    rw [Parse.run_expect, Parse.run_expect, ← current_advance, ← current_advance, hlooks.1]
    split
    · exact .done _ _ _ _ rfl rfl rfl hnext
    · refine .reported k (.expected kind p.peek) p'.peek hk ht hu ?_ ?_
      · rw [Outcome.Meets, Reports, diagnostics_report, hp.left_clean]
        rfl
      · rw [Outcome.Meets, Reports, diagnostics_report, hp.right_clean]
        rfl
  -- The sides may part here, but if either of them reports a token, it is the next one.
  · have hbuilt : Built true .settled .fresh (expect (σ := σ) kind) := .expect kind
    have hbuilt' : Built true .settled .fresh (expect (σ := τ) kind) := .expect kind
    exact .past (hbuilt.past hs.left (hp.past heq).1) (hbuilt'.past hs.right (hp.past heq).2)

end Primitive

omit [LawfulTokenStream σ] [LawfulTokenStream τ] in
theorem EndsTogether.settle {o : Outcome σ α} {o' : Outcome τ α}
    (h : EndsTogether s s' i .fresh R o o') : EndsTogether s s' i .settled R o o' := by
  cases h with
  | done a a' q q' ho ho' ha hq =>
    rcases hq.within.lt_or_eq with ⟨hlt, -⟩ | ⟨heq, -⟩
    · exact .done a a' q q' ho ho' ha ⟨hq.left, hq.right, hq.index_eq, hq.left_clean,
        hq.right_clean, hlt⟩
    -- At the later stage the last common token counts as left behind.
    · subst ho ho'
      exact .past (hq.past heq).1 (hq.past heq).2
  | outOfFuel h => exact .outOfFuel h
  | reported k d t' hk ht ht' ho ho' => exact .reported k d t' hk ht ht' ho ho'
  | past ho ho' =>
    exact .past (ho.mono (fun _ _ hq => hq.look) fun _ hq => hq)
      (ho'.mono (fun _ _ hq => hq.look) fun _ hq => hq)

omit [LawfulTokenStream σ] [LawfulTokenStream τ] in
theorem EndsTogether.forget {o : Outcome σ α} {o' : Outcome τ α}
    (h : EndsTogether s s' i .reported R o o') : EndsTogether s s' i c R o o' := by
  cases h with
  | done a a' q q' ho ho' ha hq => exact hq.within.elim
  | outOfFuel h => exact .outOfFuel h
  | reported k d t' hk ht ht' ho ho' => exact .reported k d t' hk ht ht' ho ho'
  | past ho ho' =>
    exact .past (ho.mono (fun _ _ hq => hq.of_reported) fun _ hq => hq)
      (ho'.mono (fun _ _ hq => hq.of_reported) fun _ hq => hq)

/-- **Two actions of one make end together** if they are begun together. -/
theorem Parallel.endsTogether {j : Bool} {m : Parse σ α} {m' : Parse τ α}
    (hs : Common i (toList s) (toList s')) (h : Parallel j b c R m m')
    (hp : Together s s' i b p p') : EndsTogether s s' i c R (m.run p) (m'.run p') := by
  induction h generalizing p p' with
  | pure ha => exact .done _ _ p p' rfl rfl ha hp
  | bind hR hm hf ihm ihf =>
    exact (ihm hp).bind hs (fun a => (hf a a (hR a)).built_left)
      (fun a => (hf a a (hR a)).built_right) fun a a' q q' ha hq => ihf a a' ha hq
  | current =>
    obtain ⟨-, -, -, -, hlooks⟩ := hp.exists_current hs
    exact .done _ _ p p' rfl rfl hlooks hp
  | peek => exact hp.run_peek hs
  -- The sides are together only before the first report, and this belongs to recovery.
  | onClosed => exact hp.within.elim
  | advance => exact hp.run_advance
  | closeBlock =>
    refine .done _ _ _ _ rfl rfl rfl ⟨hp.left.closeBlock, hp.right.closeBlock, ?_, ?_, ?_, ?_⟩
    · simpa using hp.index_eq
    · simpa using hp.left_clean
    · simpa using hp.right_clean
    · simpa using hp.within
  | expect kind => exact hp.run_expect hs kind
  | judge passes _ hfails ih =>
    obtain ⟨-, -, -, -, hlooks⟩ := hp.exists_current hs
    rw [run_bind_of_done (run_current p), run_bind_of_done (run_current p')]
    -- Tokens that look alike are given the same verdict.
    by_cases ht : passes p.current
    · exact ih _ _ hlooks ht hp
    · obtain ⟨d, hd, hd'⟩ := hfails _ _ hlooks ht
      rw [hd, hd']
      exact hp.reject hs
  | attempt hR hm hsome hnone ihm ihsome ihnone =>
    refine (ihm hp).attempt hs (fun a => (hsome a a (hR a)).built_left)
      (fun a => (hsome a a (hR a)).built_right) hnone.built_left hnone.built_right ?_
    exact fun a a' q q' ha hq => ihsome a a' ha hq
  | @braces _ b c d _ _ Q _ f f' g g' hR hf hg ihf ihg =>
    have hmove : b.move = .fresh := hp.within.move_eq
    -- What follows the brace, in case the sides part at it.
    have hrest : Built true b.move d
        ((Parse.current >>= fun t => Parse.advance >>= fun _ => f t) >>= g) := by
      rw [hmove]
      exact .bind (.bind .current fun t => .bind .advance fun _ => (hf t t (.refl t)).built_left)
        fun a => (hg a a (hR a)).built_left
    have hrest' : Built true b.move d
        ((Parse.current >>= fun t => Parse.advance >>= fun _ => f' t) >>= g') := by
      rw [hmove]
      exact .bind (.bind .current fun t => .bind .advance fun _ => (hf t t (.refl t)).built_right)
        fun a => (hg a a (hR a)).built_right
    refine (hp.run_expect hs .leftBrace).bind hs (fun _ => hrest) (fun _ => hrest')
      fun _ _ q q' _ hq => ?_
    rw [hmove] at hq
    -- The body begins behind the brace.
    obtain ⟨-, -, -, -, hlooks⟩ := hq.exists_current hs
    have hbody : EndsTogether s s' i c Q
        ((Parse.current >>= fun t => Parse.advance >>= fun _ => f t).run q)
        ((Parse.current >>= fun t => Parse.advance >>= fun _ => f' t).run q') := by
      rw [run_bind_of_done (run_current q), run_bind_of_done (run_current q')]
      exact hq.run_advance.bind hs (fun _ => (hf _ _ (.refl _)).built_left)
        (fun _ => (hf _ _ (.refl _)).built_right) fun _ _ r r' _ hr => ihf _ _ hlooks hr
    exact hbody.bind hs (fun a => (hg a a (hR a)).built_left)
      (fun a => (hg a a (hR a)).built_right) fun a a' r r' ha hr => ihg a a' ha hr
  | outOfFuel _ => exact .outOfFuel (.inl rfl)
  | outOfFuel_right _ => exact .outOfFuel (.inr rfl)
  | settle _ ih => exact (ih hp).settle
  | forget _ ih => exact (ih hp).forget

end Sides

end Parse

/-! ### Programs -/

open Parse

variable {σ τ : Type} [TokenStream σ] [TokenStream τ] [LawfulTokenStream σ] [LawfulTokenStream τ]

/-- **The first diagnostic is decided where it is made.** If it is about a common token of two
streams, it is the first diagnostic on either. -/
theorem Reading.head_of_common {s : σ} {s' : τ} {i : Nat} (hs : Common i (toList s) (toList s'))
    (hnodup : (toList s).Nodup) {d : Diagnostic} (hi : (toList s)[i]? = some d.token)
    (h : (Reading.ofStream s).diagnostics.head? = some d) :
    ∃ t', (toList s')[i]? = some t' ∧
      (Reading.ofStream s').diagnostics.head? = some (d.about t') := by
  obtain ⟨body, q, hrun, -, heq⟩ :=
    Reading.exists_run (Parser.genuine_ofStream s) (Parser.behind_ofStream s)
  obtain ⟨body', q', hrun', -, heq'⟩ :=
    Reading.exists_run (Parser.genuine_ofStream s') (Parser.behind_ofStream s')
  rw [Reading.ofStream, heq] at h
  rw [Reading.ofStream, heq']
  have hstart : Together s s' i .fresh (Parser.ofStream s) (Parser.ofStream s') :=
    ⟨.start, .start, rfl, rfl, rfl, Nat.zero_le i⟩
  have hends := (statements_parallel
    (expression_parallel (Parser.ofStream s).fuel (Parser.ofStream s').fuel)
    (Parser.ofStream s).fuel (Parser.ofStream s').fuel endsProgram).endsTogether hs hstart
  rw [hrun, hrun'] at hends
  -- Both runs are done, so of the ways to end together only a common report is left.
  cases hends with
  | done _ _ r r' ho ho' _ hr =>
    -- Nothing has been reported at all.
    cases ho
    rw [show q.diagnostics = [] from hr.left_clean] at h
    cases h
  | outOfFuel ho => rcases ho with ho | ho <;> cases ho
  | reported k d' t' hk ht ht' ho ho' =>
    obtain rfl : d' = d := Option.some.inj (Eq.trans (Eq.symm ho) h)
    -- A token has only one index.
    have hlt : k < (toList s).length := (List.getElem?_eq_some_iff.1 ht).1
    obtain rfl : k = i := (List.getElem?_inj hlt hnodup).1 (ht.trans hi.symm)
    exact ⟨t', ht', ho'⟩
  | past ho ho' =>
    -- Then nothing has been reported, or else a token behind the index.
    exfalso
    rcases ho.first with ⟨hclean, -⟩ | ⟨d', hd', hmem⟩
    · rw [hclean] at h
      cases h
    · obtain rfl : d' = d := Option.some.inj (Eq.trans (Eq.symm hd') h)
      have hget : ((toList s).take (i + 1))[i]? = some d'.token := by
        rw [List.getElem?_take_of_lt (Nat.lt_succ_self i), hi]
      exact List.disjoint_take_drop hnodup (Nat.le_refl _) (List.mem_of_getElem? hget) hmem

end MonkeySyntax
