import MonkeySyntax.Proofs.Containment
import MonkeySyntax.Proofs.Counting
import MonkeySyntax.Proofs.TokenOrder

/-!
# A broken statement before a semicolon

A statement is broken off on a token outside all braces, and behind it stands a semicolon, perhaps
with a group of braces in between. Where does reading go on? Without a group it goes on behind the
semicolon, and the statement has made one diagnostic. A group, however, ends the skipping on its
closing brace. The semicolon behind the group is then taken for a statement of its own, and makes a
diagnostic of its own (`broken_statement_before_semicolon`).

Three things are needed. The place where the statement was broken off is next to the token of its
diagnostic (`Parse.Built.last_diagnostic`). No statement was dropped on the way there, since no
brace was passed (`Parse.Built.calm`). And what lies ahead from there on is skipped as described
(`Parse.synchronize_broken`). Behind the semicolon the text is read as on its own.
-/

namespace MonkeySyntax

open TokenStream (toList)

/-- Neither braces nor semicolons. -/
def Flat (ts : List Token) : Prop :=
  ∀ t ∈ ts, t.kind.Plain ∧ t.kind ≠ .semicolon

/-- A group in braces. -/
def BraceGroup (ts : List Token) : Prop :=
  ∃ opening inside closing, ts = opening :: (inside ++ [closing]) ∧ opening.kind = .leftBrace ∧
    closing.kind = .rightBrace ∧ Balanced inside

namespace Parser

variable {σ : Type} [TokenStream σ] [LawfulTokenStream σ] {s : σ} {p q r : Parser σ}

theorem peek_of_upcoming {t u : Token} {ts : List Token} (h : p.upcoming = t :: u :: ts) :
    p.peek = u :=
  current_of_upcoming (upcoming_advance_of_cons h)

omit [LawfulTokenStream σ] in
theorem ne_eof_of_upcoming {t u : Token} {ts : List Token} (h : p.upcoming = t :: u :: ts) :
    p.current.kind ≠ .eof := by
  intro he
  rw [upcoming_of_eof he] at h
  simp at h

/-! ### Where no brace is passed -/

omit [LawfulTokenStream σ] in
/-- An opening brace has been passed between the two places. -/
def Enters (s : σ) (p q : Parser σ) : Prop :=
  ∃ i t, (toList s)[i]? = some t ∧ t.kind = .leftBrace ∧ p.index ≤ i ∧ i < q.index

/-- Between the two places statements have been dropped only behind an opening brace. -/
structure Calm (s : σ) (p q : Parser σ) : Prop where
  reachable : q.Reachable s
  index_le : p.index ≤ q.index
  dropped_eq : ¬ Enters s p q → q.dropped = p.dropped

omit [LawfulTokenStream σ]

theorem Calm.refl (h : p.Reachable s) : Calm s p p where
  reachable := h
  index_le := Nat.le_refl _
  dropped_eq _ := rfl

theorem Calm.trans (h : Calm s p q) (h' : Calm s q r) : Calm s p r where
  reachable := h'.reachable
  index_le := Nat.le_trans h.index_le h'.index_le
  dropped_eq hno := by
    -- A brace that is passed on either way is passed on the whole of it.
    have hfirst : ¬ Enters s p q := by
      rintro ⟨i, t, ht, hk, hle, hlt⟩
      exact hno ⟨i, t, ht, hk, hle, Nat.lt_of_lt_of_le hlt h'.index_le⟩
    have hsecond : ¬ Enters s q r := by
      rintro ⟨i, t, ht, hk, hle, hlt⟩
      exact hno ⟨i, t, ht, hk, Nat.le_trans h.index_le hle, hlt⟩
    rw [h'.dropped_eq hsecond, h.dropped_eq hfirst]

theorem Calm.advance (h : p.Reachable s) : Calm s p p.advance where
  reachable := h.advance
  index_le := Nat.le_succ _
  dropped_eq _ := rfl

theorem Calm.report (h : p.Reachable s) (d : Diagnostic) : Calm s p (p.report d) where
  reachable := h.report d
  index_le := Nat.le_refl _
  dropped_eq _ := rfl

end Parser

namespace Parse

open MonkeySyntax.Parser

section Primitive

variable {σ α : Type} [TokenStream σ] {b c : Stage} {m : Parse σ α} {p : Parser σ}

/-- **A rejection happens at the token that it reports**, or right before it. -/
theorem Built.last_diagnostic {i : Bool} (h : Built i b c m) (p : Parser σ) :
    (m.run p).Meets True (fun _ _ => True) fun q =>
      ∃ d, q.diagnostics.getLast? = some d ∧ (d.token = q.current ∨ d.token = q.peek) := by
  induction h generalizing p with
  | pure a => trivial
  | bind _ _ ihm ihf =>
    rw [meets_bind]
    exact (ihm p).mono (fun a q _ => ihf a q) fun _ hq => hq
  | current => trivial
  | peek => trivial
  | onClosed => trivial
  | advance => trivial
  | closeBlock => trivial
  | expect kind =>
    refine meets_expect (fun _ => trivial) fun _ => ?_
    exact ⟨_, List.getLast?_concat, .inr rfl⟩
  | judge passes _ hfails ih =>
    rw [meets_bind, meets_current]
    by_cases ht : passes p.current
    · exact ih _ ht p
    · obtain ⟨d, hd⟩ := hfails _ ht
      rw [hd]
      exact ⟨_, List.getLast?_concat, .inl (d.token_about _)⟩
  | attempt _ _ _ ihm ihsome ihnone =>
    rw [meets_bind, meets_attempt]
    exact (ihm p).mono (fun a q _ => ihsome a q) fun q _ => ihnone q.drop
  | braces _ _ ihf ihg =>
    rw [meets_bind]
    refine meets_expect (fun _ => ?_) fun _ => ⟨_, List.getLast?_concat, .inr rfl⟩
    rw [meets_bind, meets_bind, meets_current, meets_bind, meets_advance]
    exact (ihf _ _).mono (fun a q _ => ihg a q) fun _ hq => hq
  | outOfFuel => trivial
  | settle _ ih => exact ih p
  | forget _ ih => exact ih p

variable [LawfulTokenStream σ] {s : σ}

/-- Behind an opening brace, nothing more is promised. -/
theorem Built.calm_of_brace {i : Bool} (h : Built i b c m) (hp : p.Reachable s)
    (hk : p.peek.kind = .leftBrace) {q : Parser σ} (hq : q.Reachable s)
    (hle : p.index + 2 ≤ q.index) :
    (m.run q).Meets True (fun _ r => Calm s p r ∧ p.index + 2 ≤ r.index) (Calm s p) := by
  have hne : p.advance.current.kind ≠ .eof := by
    rw [current_advance, hk]
    decide
  -- The brace lies between the two places, so the claim about them is empty.
  have hbrace := hp.advance.getElem?_index hne
  have hcalm {r : Parser σ} (hr : r.Reachable s ∧ p.index + 2 ≤ r.index) : Calm s p r := by
    refine ⟨hr.1, Nat.le_trans (Nat.le_add_right _ _) hr.2, fun hno => ?_⟩
    exact absurd ⟨_, _, hbrace, hk, Nat.le_succ _, hr.2⟩ hno
  have hkeeps := h.keeps (kept_reachable.and (kept_le_index (p.index + 2))) ⟨hq, hle⟩
  exact hkeeps.mono (fun _ r hr => ⟨hcalm hr, hr.2⟩) fun _ hr => hcalm hr

/-- **Nothing is dropped outside braces.** -/
theorem Built.calm (h : Built false b c m) (hp : p.Reachable s) :
    (m.run p).Meets True (fun _ q => Calm s p q) (Calm s p) := by
  generalize hi : false = i at h
  induction h generalizing p with
  | pure a => exact .refl hp
  | bind _ _ ihm ihf =>
    rw [meets_bind]
    refine (ihm hp hi).mono (fun a q hq => ?_) fun _ hq => hq
    exact (ihf a hq.reachable hi).mono (fun _ _ hr => hq.trans hr) fun _ hr => hq.trans hr
  | current => exact .refl hp
  | peek => exact .refl hp
  | onClosed => exact .refl hp
  | advance => exact .advance hp
  | closeBlock =>
    have hcalm : Calm s p p.closeBlock :=
      ⟨hp.closeBlock, Nat.le_of_eq p.index_closeBlock.symm, fun _ => p.dropped_closeBlock⟩
    exact hcalm
  | expect kind => exact meets_expect (fun _ => .advance hp) fun _ => .report hp _
  | judge passes _ hfails ih =>
    rw [meets_bind, meets_current]
    by_cases ht : passes p.current
    · exact ih _ ht hp hi
    · obtain ⟨d, hd⟩ := hfails _ ht
      rw [hd]
      exact .report hp _
  | attempt => exact absurd hi Bool.false_ne_true
  | braces hf hg _ _ =>
    -- The induction hypotheses say nothing here: the body may drop statements.
    rw [meets_bind]
    refine meets_expect (fun hk => ?_) fun _ => .report hp _
    rw [meets_bind, meets_bind, meets_current, meets_bind, meets_advance]
    have hbody := (hf p.advance.current).calm_of_brace hp hk hp.advance.advance (Nat.le_refl _)
    refine hbody.mono (fun a q hq => ?_) fun _ hq => hq
    exact ((hg a).calm_of_brace hp hk hq.1.reachable hq.2).mono (fun _ _ hr => hr.1) fun _ hr => hr
  | outOfFuel => trivial
  | settle _ ih => exact ih hp hi
  | forget _ ih => exact ih hp hi

end Primitive

/-! ### Skipping -/

section Skipping

variable {σ : Type} [TokenStream σ] {p : Parser σ} {depth : Nat}

theorem run_skipRound (depth : Nat) (p : Parser σ) :
    (skipRound depth).run p =
      if p.current.kind = .eof then .done (.stop false) p
      else if p.current.kind = .leftBrace then .done (.next (depth + 1)) p.advance
      else if p.current.kind = .rightBrace ∧ p.onClosed = false then
        match depth with
        | 0 => .done (.stop true) p
        | 1 => .done (.stop false) p
        | depth + 2 => .done (.next (depth + 1)) p.advance
      else if depth = 0 ∧ (p.current.kind = .semicolon ∨ p.peek.kind = .rightBrace ∨
          p.peek.kind = .eof) then .done (.stop false) p
      else .done (.next depth) p.advance := by
  unfold skipRound
  rw [run_bind_of_done (run_current p), run_bind_of_done (run_peek p),
    run_bind_of_done (run_onClosed p)]
  split
  · rfl
  split
  · rfl
  split
  · split <;> rfl
  split <;> rfl

variable [LawfulTokenStream σ] {group behind : List Token} {semicolon : Token}

/-- What lies ahead inside `depth` groups, while a broken statement is skipped that has a group or
none: outside of it, tokens up to the group or to what is behind the statement; inside, tokens up to
the brace that closes it. -/
inductive Rest (group behind : List Token) : (depth : Nat) → List Token → Prop where
  | outside {ts : List Token} : Flat ts → Rest group behind 0 (ts ++ (group ++ behind))
  | inside {depth : Nat} {ts : List Token} {closing : Token} : group ≠ [] → Closes depth ts →
      closing.kind = .rightBrace → Rest group behind (depth + 1) (ts ++ closing :: behind)

/-- While a broken statement is skipped. -/
structure SkipsBroken (group behind : List Token) (ds : List Diagnostic) (depth : Nat)
    (p : Parser σ) : Prop where
  genuine : p.Genuine
  abreast : p.Abreast
  /-- A closing brace that comes now is none of those that the statement has read. -/
  behind_of_inside : depth ≠ 0 → p.Behind
  diagnostics_eq : p.diagnostics = ds
  rest : Rest group behind depth p.upcoming

/-- Where skipping a broken statement ends: on the semicolon, or before it if there is a group. -/
structure SkippedBroken (group behind : List Token) (ds : List Diagnostic) (p : Parser σ) :
    Prop where
  genuine : p.Genuine
  abreast : p.Abreast
  diagnostics_eq : p.diagnostics = ds
  upcoming_advance : p.advance.upcoming = if group = [] then behind.tail else behind

variable {ds : List Diagnostic}

omit [LawfulTokenStream σ] in
theorem SkipsBroken.advance {depth' : Nat} (h : SkipsBroken group behind ds depth p)
    (hrest : Rest group behind depth' p.advance.upcoming) :
    SkipsBroken group behind ds depth' p.advance where
  genuine := h.genuine.advance
  abreast := h.abreast.advance.abreast
  behind_of_inside _ := h.abreast.advance
  diagnostics_eq := h.diagnostics_eq
  rest := hrest

theorem skipRound_of_outside (hgroup : group = [] ∨ BraceGroup group) {us : List Token}
    (hbehind : behind = semicolon :: us) (hk : semicolon.kind = .semicolon) (hus : us ≠ [])
    (h : SkipsBroken group behind ds 0 p) {ts : List Token} (hts : Flat ts)
    (hup : p.upcoming = ts ++ (group ++ behind)) {R : Parser σ → Prop} :
    ((skipRound 0).run p).Meets False
      (fun
        | .next depth', q => SkipsBroken group behind ds depth' q ∧ q.ahead.length < p.ahead.length
        | .stop b, q => b = false ∧ SkippedBroken group behind ds q) R := by
  cases ts with
  | nil =>
    rcases hgroup with rfl | ⟨opening, inside, closing, rfl, ho, hc, hinside⟩
    · -- This is the semicolon.
      obtain ⟨u, us, rfl⟩ := List.exists_cons_of_ne_nil hus
      have hup : p.upcoming = semicolon :: u :: us := by rw [hup, hbehind]; rfl
      rw [run_skipRound_of_semicolon (by rw [current_of_upcoming hup, hk])]
      refine ⟨rfl, h.genuine, h.abreast, h.diagnostics_eq, ?_⟩
      rw [upcoming_advance_of_cons hup, if_pos rfl, hbehind]
      rfl
    · -- The group begins.
      have hup : p.upcoming = opening :: (inside ++ closing :: behind) := by rw [hup]; simp
      have hkind : p.current.kind = .leftBrace := by rw [current_of_upcoming hup, ho]
      have hne : p.current.kind ≠ .eof := by simp [hkind]
      rw [run_skipRound, if_neg hne, if_pos hkind]
      rw [upcoming_of_ne_eof hne] at hup
      refine ⟨h.advance ?_, length_ahead_advance_lt hne⟩
      rw [(List.cons.inj hup).2]
      exact .inside (List.cons_ne_nil _ _) hinside hc
  | cons t ts =>
    obtain ⟨⟨he, hl, hr⟩, hs⟩ := hts t (List.mem_cons_self ..)
    have hflat : Flat ts := fun u hu => hts u (List.mem_cons_of_mem _ hu)
    have hcurrent : p.current = t := current_of_upcoming hup
    -- What comes next does not end the statement either.
    have hpeek : p.peek.kind ≠ .rightBrace ∧ p.peek.kind ≠ .eof := by
      cases ts with
      | cons u ts =>
        rw [peek_of_upcoming hup]
        obtain ⟨⟨he, -, hr⟩, -⟩ := hflat u (List.mem_cons_self ..)
        exact ⟨hr, he⟩
      | nil =>
        rcases hgroup with rfl | ⟨opening, inside, closing, rfl, ho, -, -⟩
        · rw [hbehind] at hup
          rw [peek_of_upcoming hup, hk]
          decide
        · rw [peek_of_upcoming hup, ho]
          decide
    have hnot : ¬ (0 = 0 ∧ (p.current.kind = .semicolon ∨ p.peek.kind = .rightBrace ∨
        p.peek.kind = .eof)) := by
      rintro ⟨-, hkind | hkind | hkind⟩
      · exact hs (hcurrent ▸ hkind)
      · exact hpeek.1 hkind
      · exact hpeek.2 hkind
    rw [← hcurrent] at he hl hr
    rw [run_skipRound, if_neg he, if_neg hl, if_neg (fun h => hr h.1), if_neg hnot]
    rw [upcoming_of_ne_eof he, List.cons_append] at hup
    refine ⟨h.advance ?_, length_ahead_advance_lt he⟩
    rw [(List.cons.inj hup).2]
    exact .outside hflat

theorem skipRound_of_inside (hgroup : group ≠ []) (hbehind : behind ≠ [])
    (h : SkipsBroken group behind ds (depth + 1) p) {ts : List Token} {closing : Token}
    (hts : Closes depth ts) (hc : closing.kind = .rightBrace)
    (hup : p.upcoming = ts ++ closing :: behind) {R : Parser σ → Prop} :
    ((skipRound (depth + 1)).run p).Meets False
      (fun
        | .next depth', q => SkipsBroken group behind ds depth' q ∧ q.ahead.length < p.ahead.length
        | .stop b, q => b = false ∧ SkippedBroken group behind ds q) R := by
  have honClosed : p.onClosed = false := (h.behind_of_inside (Nat.succ_ne_zero _)).onClosed
  cases ts with
  | nil =>
    -- Nothing is open any more but the group itself, and this is its end.
    obtain rfl : depth = 0 := hts
    obtain ⟨u, us, rfl⟩ := List.exists_cons_of_ne_nil hbehind
    have hkind : p.current.kind = .rightBrace := by rw [current_of_upcoming hup, hc]
    rw [run_skipRound, if_neg (by simp [hkind]), if_neg (by simp [hkind]),
      if_pos ⟨hkind, honClosed⟩]
    refine ⟨rfl, h.genuine, h.abreast, h.diagnostics_eq, ?_⟩
    rw [upcoming_advance_of_cons hup, if_neg hgroup]
  | cons t ts =>
    have hcurrent : p.current = t := current_of_upcoming hup
    have hne : p.current.kind ≠ .eof := by
      obtain ⟨u, us, hcons⟩ := List.exists_cons_of_ne_nil (l := ts ++ closing :: behind) (by simp)
      rw [List.cons_append, hcons] at hup
      exact ne_eof_of_upcoming hup
    have hnext : p.advance.upcoming = ts ++ closing :: behind := by
      rw [upcoming_of_ne_eof hne, List.cons_append] at hup
      exact (List.cons.inj hup).2
    have hmoved {depth' : Nat} (hts' : Closes depth' ts) :
        SkipsBroken group behind ds (depth' + 1) p.advance ∧
          p.advance.ahead.length < p.ahead.length :=
      ⟨h.advance (hnext ▸ .inside hgroup hts' hc), length_ahead_advance_lt hne⟩
    rw [run_skipRound, if_neg hne]
    by_cases hl : t.kind = .leftBrace
    · rw [if_pos (hcurrent ▸ hl)]
      exact hmoved ((closes_cons_of_leftBrace hl).1 hts)
    rw [if_neg (hcurrent ▸ hl)]
    by_cases hr : t.kind = .rightBrace
    · -- An inner group ends.
      obtain ⟨hdepth, hts'⟩ := (closes_cons_of_rightBrace hr).1 hts
      obtain ⟨k, rfl⟩ := Nat.exists_eq_succ_of_ne_zero hdepth
      rw [if_pos ⟨hcurrent ▸ hr, honClosed⟩]
      exact hmoved hts'
    · rw [if_neg (fun h => hr (hcurrent ▸ h.1)), if_neg (fun h => Nat.succ_ne_zero _ h.1)]
      exact hmoved ((closes_cons_of_ne hl hr).1 hts)

/-- **Skipping a broken statement.** -/
theorem synchronize_broken (hgroup : group = [] ∨ BraceGroup group) {us : List Token}
    (hk : semicolon.kind = .semicolon) (hus : us ≠ []) (hg : p.Genuine) (ha : p.Abreast)
    {ts : List Token} (hts : Flat ts) (hup : p.upcoming = ts ++ (group ++ semicolon :: us))
    {fuel : Nat} (hfuel : p.ahead.length < fuel) :
    ∃ q, (synchronize fuel).run p = .done false q ∧
      SkippedBroken group (semicolon :: us) p.diagnostics q := by
  have hstart : SkipsBroken group (semicolon :: us) p.diagnostics 0 p :=
    ⟨hg, ha, fun h => absurd rfl h, rfl, hup ▸ .outside hts⟩
  have hmeets : ((synchronize fuel).run p).Meets False
      (fun b q => b = false ∧ SkippedBroken group (semicolon :: us) p.diagnostics q)
      fun _ => False := by
    refine meets_rounds (SkipsBroken group (semicolon :: us) p.diagnostics)
      (fun q => q.ahead.length) (fun depth q hq => ?_) hstart (.inr hfuel)
    have hround : ((skipRound depth).run q).Meets False
        (fun
          | .next depth', r => SkipsBroken group (semicolon :: us) p.diagnostics depth' r ∧
              r.ahead.length < q.ahead.length
          | .stop b, r => b = false ∧ SkippedBroken group (semicolon :: us) p.diagnostics r)
        fun _ => False := by
      generalize hupcoming : q.upcoming = vs
      have hrest := hq.rest
      rw [hupcoming] at hrest
      cases hrest with
      | outside hflat => exact skipRound_of_outside hgroup rfl hk hus hq hflat hupcoming
      | inside hne hcloses hc =>
        exact skipRound_of_inside hne (List.cons_ne_nil _ _) hq hcloses hc hupcoming
    refine hround.mono (fun o r hr => ?_) fun _ h => h
    cases o with
    | next depth' => exact ⟨hr.1, .inr hr.2⟩
    | stop b => exact hr
  obtain ⟨b, q, hrun, rfl, hq⟩ := hmeets.exists_done
  exact ⟨q, hrun, hq⟩

end Skipping

/-! ### The loop over the statements -/

section Loop

variable {σ : Type} [TokenStream σ] {p q r : Parser σ} {fuel : Nat}

/-- One round of the loop drops a statement and skips what is left of it. -/
theorem run_statementsRound_of_rejected {expr : Nat → Parse σ Node} (before : List Node)
    (hne : p.current.kind ≠ .eof) (hstatement : (statement expr).run p = .rejected q)
    (hskip : (synchronize fuel).run q.drop = .done false r) :
    (statementsRound expr fuel endsProgram before).run p = .done (.next before) r.advance := by
  have hends : ¬ (endsProgram p.current.kind = true) := by simpa [endsProgram] using hne
  have hattempt : (attempt (statement expr)).run p = .done none q.drop := by
    rw [run_attempt, hstatement]
  rw [statementsRound, run_bind_of_done (run_current p), if_neg hends, run_bind_of_done hattempt,
    run_bind_of_done hskip]
  rfl

/-- **A semicolon is no statement.** -/
theorem run_statement_of_semicolon (N : Nat) (h : p.current.kind = .semicolon) :
    (statement (expression (N + 1))).run p = .rejected (p.report (.noExpression p.current)) :=
  run_statement_of_no_rule N (by simp [h]) (by simp [h]) (h ▸ rfl)

/-- A semicolon in the place of a statement is reported and passed. -/
theorem run_statementsRound_of_semicolon (N fuel : Nat) (before : List Node)
    (h : p.current.kind = .semicolon) :
    (statementsRound (expression (N + 1)) (fuel + 1) endsProgram before).run p =
      .done (.next before) ((p.report (.noExpression p.current)).drop).advance := by
  refine run_statementsRound_of_rejected before (by simp [h]) (run_statement_of_semicolon N h) ?_
  exact run_rounds_of_stop (run_skipRound_of_semicolon h)

end Loop

/-- The parser stands on a token of the stream, or right before it. So it is not at the end, and its
index is not above that of the token. -/
theorem index_le_of_place {σ : Type} [TokenStream σ] [LawfulTokenStream σ] {s : σ}
    {q : Parser σ} {t : Token} {j : Nat} (hq : q.Reachable s) (hnodup : (toList s).Nodup)
    (hj : (toList s)[j]? = some t) (ht : t.kind ≠ .eof) (hplace : t = q.current ∨ t = q.peek) :
    q.current.kind ≠ .eof ∧ q.index ≤ j := by
  have hlt := (List.getElem?_eq_some_iff.1 hj).1
  -- A token has only one index, and the parser's own index counts to the current one.
  rcases hplace with rfl | rfl
  · have hcurrent := hq.getElem?_index ht
    have heq : j = q.index := (List.getElem?_inj hlt hnodup).1 (hj.trans hcurrent.symm)
    exact ⟨ht, Nat.le_of_eq heq.symm⟩
  · have hpeek := hq.advance.getElem?_index ht
    have heq : j = q.index + 1 := (List.getElem?_inj hlt hnodup).1 (hj.trans hpeek.symm)
    exact ⟨fun he => ht (hq.genuine.kind_advance_of_eof he), by omega⟩

/-- **Where a broken statement is broken off.** The statement is rejected on a token before all
braces, or on the first brace. Then it has made one diagnostic, and what is left of it has no braces
up to its group. -/
theorem rejected_before_braces {σ : Type} [TokenStream σ] [LawfulTokenStream σ] {s : σ}
    {N : Nat} {q : Parser σ} {plain group us : List Token} {semicolon : Token} {d : Diagnostic}
    (hs : toList s = plain ++ (group ++ semicolon :: us)) (hnodup : (toList s).Nodup)
    (hplain : Flat plain)
    (hrun : (statement (expression N)).run (Parser.ofStream s) = .rejected q)
    (hlast : q.diagnostics.getLast? = some d) (hmem : d.token ∈ plain ++ group.take 1) :
    q.Reachable s ∧ q.diagnostics = [d] ∧
      ∃ ts, Flat ts ∧ q.upcoming = ts ++ (group ++ semicolon :: us) := by
  have hbuilt : Built false .fresh .settled (statement (expression (σ := σ) N)) :=
    (statement_parallel (expression_self N)).built_left
  have hcalm := hbuilt.calm (s := s) .start
  have htallies := hbuilt.tallies (Parser.ofStream s)
  have hplace := hbuilt.last_diagnostic (Parser.ofStream s)
  rw [hrun] at hcalm htallies hplace
  -- The token of the diagnostic is one of those up to the first brace.
  obtain ⟨j, hj⟩ := List.getElem?_of_mem hmem
  have hle : j ≤ plain.length := by
    have hlen := (List.getElem?_eq_some_iff.1 hj).1
    rw [List.length_append, List.length_take] at hlen
    omega
  have hsplit : toList s = plain ++ group.take 1 ++ (group.drop 1 ++ semicolon :: us) := by
    rw [hs, List.append_assoc, ← List.append_assoc (group.take 1), List.take_append_drop]
  have htoken : (toList s)[j]? = some d.token := by
    rw [hsplit, List.getElem?_append_left (List.getElem?_eq_some_iff.1 hj).1, hj]
  have hne : d.token.kind ≠ .eof := by
    have hbefore : toList s = (plain ++ group) ++ semicolon :: us := by rw [hs, List.append_assoc]
    refine TokenStream.kind_ne_eof_of_toList_eq hbefore ?_
    exact ((List.prefix_append_right_inj plain).2 (List.take_prefix 1 group)).subset hmem
  obtain ⟨d', hd', hplace⟩ := hplace
  obtain rfl : d = d' := Option.some.inj (hlast.symm.trans hd')
  obtain ⟨hcurrent, hindex⟩ := index_le_of_place hcalm.reachable hnodup htoken hne hplace
  have hindex : q.index ≤ plain.length := Nat.le_trans hindex hle
  -- So no brace has been passed, and no statement dropped.
  have hdropped : q.dropped = 0 := by
    refine hcalm.dropped_eq ?_
    rintro ⟨i, t, ht, hk, -, hlt⟩
    have hlt : i < plain.length := Nat.lt_of_lt_of_le hlt hindex
    rw [hs, List.getElem?_append_left hlt] at ht
    exact (hplain t (List.mem_of_getElem? ht)).1.2.1 hk
  refine ⟨hcalm.reachable, ?_, plain.drop q.index, fun t ht => ?_, ?_⟩
  · -- The books are even but for the rejection itself.
    have hlength := htallies.length_eq
    rw [hdropped] at hlength
    have hone : q.diagnostics.length = 1 := by simpa [Parser.ofStream] using hlength
    obtain ⟨d', hd'⟩ := List.length_eq_one_iff.1 hone
    rw [hd', List.getLast?_singleton] at hlast
    rw [hd', Option.some.inj hlast]
  · exact hplain t (List.mem_of_mem_drop ht)
  · rw [hcalm.reachable.upcoming_eq hcurrent, hs, List.drop_append_of_le_length hindex]

end Parse

open Parse

/-- **Reading on behind a broken statement.** The statement makes its one diagnostic. If it has a
group of braces, the semicolon behind the group makes another one. Then the rest is read as on its
own. -/
theorem Reading.ofStream_of_broken {σ τ : Type} [TokenStream σ] [TokenStream τ]
    [LawfulTokenStream σ] [LawfulTokenStream τ] {s : σ} {s' : τ} {q : Parser σ}
    {f : Token → Token} {plain group : List Token} {semicolon : Token} {d : Diagnostic}
    (hf : ∀ t, (f t).LooksLike t)
    (hs : toList s = plain ++ (group ++ semicolon :: (toList s').map f))
    (hnodup : (toList s).Nodup) (hplain : Flat plain) (hgroup : group = [] ∨ BraceGroup group)
    (hk : semicolon.kind = .semicolon)
    (hrun : (statement (Parser.ofStream s).expr).run (Parser.ofStream s) = .rejected q)
    (hlast : q.diagnostics.getLast? = some d) (hmem : d.token ∈ plain ++ group.take 1) :
    (Reading.ofStream s).program.statements =
        Node.mapTokensEach f (Reading.ofStream s').program.statements ∧
      (Reading.ofStream s).diagnostics =
        (if group = [] then [d] else [d, .noExpression semicolon]) ++
          (Reading.ofStream s').diagnostics.map (Diagnostic.mapToken f) := by
  obtain ⟨hreachable, hdiagnostics, ts, hts, hup⟩ :=
    rejected_before_braces hs hnodup hplain hrun hlast hmem
  have hus : (toList s').map f ≠ [] := by
    simpa using TokenStream.toList_ne_nil s'
  have hroom : q.drop.ahead.length < (Parser.ofStream s).fuel := by
    have hle := (Parser.ofStream s).length_upcoming_le_fuel
    have hlen := hreachable.suffix.length_le
    rw [Parser.length_upcoming] at hlen
    rw [Parser.upcoming_ofStream] at hle
    rw [Parser.ahead_drop]
    omega
  have hne : (Parser.ofStream s).current.kind ≠ .eof := by
    intro he
    have hone := Parser.upcoming_of_eof he
    rw [Parser.upcoming_ofStream, hs] at hone
    have hpos := List.length_pos_iff.2 hus
    have hlen := congrArg List.length hone
    simp only [List.length_append, List.length_cons, List.length_nil] at hlen
    omega
  obtain ⟨r, hskip, hr⟩ := synchronize_broken hgroup hk hus (p := q.drop) hreachable.genuine
    hreachable.abreast hts hup hroom
  obtain ⟨body, last, hloop, -, heq⟩ :=
    Reading.exists_run (Parser.genuine_ofStream s) (Parser.behind_ofStream s)
  -- The first round drops the statement.
  have hfirst := run_statementsRound_of_rejected [] hne hrun hskip
  have hloop := (run_rounds_of_next hfirst).symm.trans hloop
  rw [Reading.ofStream, heq]
  have hds : r.diagnostics = [d] := hr.diagnostics_eq.trans hdiagnostics
  have hnext := hr.upcoming_advance
  by_cases hnil : group = []
  · rw [if_pos hnil] at hnext ⊢
    obtain ⟨hbody, hlast⟩ := Reading.of_rounds hf hr.genuine.advance hr.abreast.advance hnext hloop
    exact ⟨hbody, by rw [hlast, Parser.diagnostics_advance, hds]⟩
  · -- The second round drops the semicolon.
    rw [if_neg hnil] at hnext ⊢
    have hsemicolon : r.advance.current = semicolon := Parser.current_of_upcoming hnext
    have hsecond := run_statementsRound_of_semicolon
      (TokenStream.size (Parser.ofStream s).stream + 2)
      (TokenStream.size (Parser.ofStream s).stream + 2) [] (hsemicolon ▸ hk)
    rw [hsemicolon] at hsecond
    have hloop := (run_rounds_of_next hsecond).symm.trans hloop
    have hbehind : r.advance.advance.upcoming = (toList s').map f := by
      have hne : r.advance.current.kind ≠ .eof := by
        rw [hsemicolon, hk]
        decide
      rw [Parser.upcoming_of_ne_eof hne] at hnext
      exact (List.cons.inj hnext).2
    obtain ⟨hbody, hlast⟩ := Reading.of_rounds
      (p := (r.advance.report (.noExpression semicolon)).drop.advance) hf
      hr.genuine.advance.advance hr.abreast.advance.abreast.advance hbehind hloop
    refine ⟨hbody, ?_⟩
    rw [hlast]
    simp [hds]

/-! ### Texts -/

/-- A rule is rejected where a call for it answers nothing. -/
theorem Parser.exists_rejected_of_isMissing {σ : Type} [TokenStream σ] [LawfulTokenStream σ]
    {p : Parser σ} (hp : p.Genuine) (h : (p.perform .statement).1.isMissing = true) :
    ∃ q, (statement p.expr).run p = .rejected q ∧ (p.perform .statement).2 = q := by
  have hends := statement_halts (expression_halts p.fuel) p hp p.length_ahead_lt_fuel
  rw [perform, answer] at h ⊢
  change Outcome.Meets False _ _ ((statement p.expr).run p) at hends
  cases hrun : (statement p.expr).run p with
  | done a q =>
    rw [hrun] at h
    cases h
  | rejected q => exact ⟨q, rfl, rfl⟩
  | outOfFuel =>
    rw [hrun] at hends
    exact hends.elim

open MonkeySyntax.Scanner (Cursor)

/-- **A broken statement before a semicolon.** The tokens of the first text are neither braces nor
semicolons, but for a group of braces that may end it; and the text does not end inside a string. A
call for a statement at its start answers nothing, and has reported one of those tokens last, or the
opening brace of the group. Then a text that goes on behind a semicolon, in the next line, is read
as what is behind. The statement makes one diagnostic, the one that the call has made. If there is a
group, the semicolon makes another one. -/
theorem broken_statement_before_semicolon (first second : String) {plain group : List Token}
    {d : Diagnostic} (htokens : (tokenize first).dropLast = plain ++ group) (hplain : Flat plain)
    (hgroup : group = [] ∨ BraceGroup group) (hstring : ¬ EndsInString first)
    (hmissing : ((Parser.ofStream (Cursor.ofString (first ++ ";\n" ++ second))).perform
      .statement).1.isMissing = true)
    (hlast : ((Parser.ofStream (Cursor.ofString (first ++ ";\n" ++ second))).perform
      .statement).2.diagnostics.getLast? = some d)
    (hmem : d.token ∈ plain ++ group.take 1) :
    ((parse (first ++ ";\n" ++ second)).program == (parse second).program) = true ∧
      (parse (first ++ ";\n" ++ second)).diagnostics =
        (if group = [] then [d] else [d, .noExpression (separator first)]) ++
          (parse second).diagnostics.map
            (Diagnostic.mapToken (Token.moveDown (1 + first.toList.count '\n'))) := by
  obtain ⟨q, hrun, hq⟩ := Parser.exists_rejected_of_isMissing (Parser.genuine_ofStream _) hmissing
  rw [hq] at hlast
  have hwhole := tokenize_semicolon_newline hstring second
  rw [htokens, List.append_assoc] at hwhole
  -- The tokens are those of the statement, the semicolon, and the moved ones of what is behind.
  obtain ⟨hstatements, hdiagnostics⟩ := Reading.ofStream_of_broken
    (Token.moveDown_looksLike (1 + first.toList.count '\n')) hwhole
    (tokenize_nodup (first ++ ";\n" ++ second)) hplain hgroup rfl hrun hlast hmem
  refine ⟨?_, hdiagnostics⟩
  change Node.sameEach (parse (first ++ ";\n" ++ second)).program.statements _ = true
  rw [show (parse (first ++ ";\n" ++ second)).program.statements = _ from hstatements]
  exact Node.sameEach_mapTokensEach _ _

/-! #### A `let` without a name, and a group of braces -/

def namelessLet : String :=
  "let 1 \x7b\x7d"

def namelessLetPlain : List Token :=
  [⟨.letKeyword, "let", 1, 1⟩, ⟨.int, "1", 1, 5⟩]

def namelessLetGroup : List Token :=
  [⟨.leftBrace, "\x7b", 1, 7⟩, ⟨.rightBrace, "\x7d", 1, 8⟩]

theorem tokenize_namelessLet :
    (tokenize namelessLet).dropLast = namelessLetPlain ++ namelessLetGroup := by
  decide +kernel

theorem flat_namelessLetPlain : Flat namelessLetPlain := by
  unfold Flat
  decide

theorem braceGroup_namelessLetGroup : BraceGroup namelessLetGroup :=
  ⟨_, [], _, rfl, rfl, rfl, rfl⟩

theorem broken_statement_before_semicolon_namelessLet :
    (tokenize namelessLet).dropLast = namelessLetPlain ++ namelessLetGroup ∧
      Flat namelessLetPlain ∧ BraceGroup namelessLetGroup ∧ ¬ EndsInString namelessLet ∧
      (parse (namelessLet ++ ";\n" ++ "5 ]")).messages =
        ["expected next token to be IDENTIFIER, but got INT instead at line 1, col 5",
          "no prefix parse function for ; found at line 1, col 9",
          "no prefix parse function for ] found at line 2, col 3"] := by
  have hstring : ¬ EndsInString namelessLet := by decide +kernel
  have hbroken := broken_statement_before_semicolon namelessLet "5 ]"
    (d := .expected .identifier ⟨.int, "1", 1, 5⟩) tokenize_namelessLet flat_namelessLetPlain
    (.inr braceGroup_namelessLetGroup) hstring (by decide +kernel) (by decide +kernel) (by decide)
  refine ⟨tokenize_namelessLet, flat_namelessLetPlain, braceGroup_namelessLetGroup, hstring, ?_⟩
  rw [Reading.messages, hbroken.2]
  decide +kernel

/-- With a group of braces, the semicolon behind it has a diagnostic of its own. So it is not true
that a broken statement makes just one. -/
theorem not_one_diagnostic_of_broken_statement :
    ¬ ∀ (first second : String) (plain group : List Token) (d : Diagnostic),
      (tokenize first).dropLast = plain ++ group → Flat plain → group = [] ∨ BraceGroup group →
      ¬ EndsInString first →
      ((Parser.ofStream (Cursor.ofString (first ++ ";\n" ++ second))).perform
        .statement).1.isMissing = true →
      ((Parser.ofStream (Cursor.ofString (first ++ ";\n" ++ second))).perform
        .statement).2.diagnostics.getLast? = some d →
      d.token ∈ plain ++ group.take 1 →
      (parse (first ++ ";\n" ++ second)).diagnostics =
        d :: (parse second).diagnostics.map
          (Diagnostic.mapToken (Token.moveDown (1 + first.toList.count '\n'))) := by
  intro hclaim
  have hone := hclaim namelessLet "5" namelessLetPlain namelessLetGroup
    (.expected .identifier ⟨.int, "1", 1, 5⟩) tokenize_namelessLet flat_namelessLetPlain
    (.inr braceGroup_namelessLetGroup) (by decide +kernel) (by decide +kernel) (by decide +kernel)
    (by decide)
  revert hone
  decide +kernel

end MonkeySyntax
