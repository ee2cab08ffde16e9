import MonkeySyntax.Proofs.Lockstep
import MonkeySyntax.Proofs.Plan
import MonkeySyntax.Proofs.Reading
import MonkeySyntax.Proofs.Scanning

/-!
# What is wrong with a statement ends at its semicolon

Behind a semicolon outside all blocks, a program is read as if nothing stood before the semicolon;
and what stands before it is read as if nothing followed. This holds of right and of wrong
statements alike, and wherever a wrong one is given up.

The loop over the statements of the long program is compared with that of the first part up to the
semicolon, which is the edge: the last statement of the first part ends there, or is skipped up to
there, on both sides (`Parse.exists_rounds_behind_semicolon`). From there on it is compared with the
loop over the second part, up to the end of both (`Parse.statements_agrees_final`).
-/

namespace MonkeySyntax

open TokenStream (toList)

namespace Comparison

variable {σ τ : Type} [TokenStream σ] [TokenStream τ]

/-- The same tokens on both sides, up to a semicolon. -/
def upTo {semicolon : Token} (h : semicolon.kind = .semicolon) (stop : Nat)
    (beyondLeft beyondRight : List Token) : Comparison where
  tree := id
  note := id
  earlier := []
  offset := 0
  stop := stop
  edge := semicolon
  beyondLeft := beyondLeft
  beyondRight := beyondRight
  looksLike := Token.LooksLike.refl
  note_eq_tree _ _ := rfl
  note_of_eof _ ht := .inl ht
  edge_kind := .inr h

/-- What the left parser has ahead, and on the right a program of its own whose tokens only look
like those on the left. -/
def goingOn (p : Parser σ) {f : Token → Token} (hf : ∀ t, (f t).LooksLike t) {last : Token}
    (h : last.kind = .eof) : Comparison where
  tree := f
  note := f
  earlier := p.diagnostics
  offset := p.index
  stop := p.index
  edge := last
  beyondLeft := []
  beyondRight := []
  looksLike := hf
  note_eq_tree _ _ := rfl
  note_of_eof t ht := .inl ((hf t).1.trans ht)
  edge_kind := .inl h

variable {c : Comparison} {p : Parser σ} {q : Parser τ} {ts : List Token}

/-- The left parser has not finished a block that lies ahead. -/
theorem InStep.abreast_left (h : c.InStep ts p q) : p.Abreast := by
  intro i t hc
  rw [h.index_eq]
  rcases Nat.lt_or_ge i c.offset with hlt | hge
  · omega
  · -- A block finished since the comparison began is known to the right parser, too.
    obtain ⟨k, rfl⟩ := Nat.exists_eq_add_of_le' hge
    obtain ⟨t', ht'⟩ := (h.closed_iff k).1 ⟨t, hc⟩
    have hle := h.abreast k t' ht'
    omega

theorem inStep_upTo [LawfulTokenStream σ] [LawfulTokenStream τ] {s : σ} {s' : τ}
    {semicolon : Token} (h : semicolon.kind = .semicolon) {us us' : List Token}
    (hs : toList s = ts ++ semicolon :: us) (hs' : toList s' = ts ++ semicolon :: us')
    (hsealed : Sealed ts) :
    (upTo h ts.length us us').InStep ts (Parser.ofStream s) (Parser.ofStream s') where
  upcoming_left := by
    rw [Parser.upcoming_ofStream, hs]
    change _ = ts.map id ++ semicolon :: us
    rw [List.map_id]
  upcoming_right := by
    rw [Parser.upcoming_ofStream, hs']
    rfl
  genuine_left := Parser.genuine_ofStream s
  genuine_right := Parser.genuine_ofStream s'
  index_eq := rfl
  index_edge _ := Nat.zero_add _
  closed_iff _ := by simp [Parser.ofStream]
  diagnostics_eq := rfl
  sealed _ := hsealed
  abreast := (Parser.behind_ofStream s').abreast
  behind _ := Parser.behind_ofStream s'

theorem inStep_goingOn [LawfulTokenStream τ] {f : Token → Token} (hf : ∀ t, (f t).LooksLike t)
    {last : Token} (h : last.kind = .eof) {s : τ} (hg : p.Genuine) (hb : p.Behind)
    (hs : toList s = ts ++ [last]) (hup : p.upcoming = (toList s).map f) :
    (goingOn p hf h).InStep ts p (Parser.ofStream s) where
  upcoming_left := by
    rw [hup, hs, List.map_append]
    rfl
  upcoming_right := by
    rw [Parser.upcoming_ofStream, hs]
    rfl
  genuine_left := hg
  genuine_right := Parser.genuine_ofStream s
  index_eq := (Nat.zero_add _).symm
  index_edge hc := absurd ⟨h, (hf last).1.trans h⟩ hc
  closed_iff i := by
    -- The blocks that the left parser has finished lie behind it, and the right one has none.
    refine ⟨fun h => ?_, fun h => ?_⟩
    · obtain ⟨t, ht⟩ := h
      have hlt : i + p.index < p.index := hb _ t ht
      omega
    · obtain ⟨t, ht⟩ := h
      cases ht
  diagnostics_eq := (List.append_nil _).symm
  sealed hc := absurd ⟨h, (hf last).1.trans h⟩ hc
  abreast := (Parser.behind_ofStream s).abreast
  behind _ := Parser.behind_ofStream s

end Comparison

namespace Parse

open Comparison

section Loop

variable {σ τ : Type} [TokenStream σ] [TokenStream τ] [LawfulTokenStream σ] [LawfulTokenStream τ]
  {c : Comparison} {expr : Nat → Parse σ Node} {expr' : Nat → Parse τ Node} {p : Parser σ}
  {q : Parser τ}

/-- **Up to the semicolon.** The right program ends behind the semicolon. When its loop is done, the
loop of the left one has come to the same place, with the same statements. -/
theorem exists_rounds_behind_semicolon (he : c.Readers expr expr')
    (hedge : c.edge.kind = .semicolon) {last : Token} (hlast : c.beyondRight = [last])
    (heof : last.kind = .eof) (before : List Node) {fuel fuel' bound bound' : Nat}
    {body body' : List Node} {r : Parser σ} {r' : Parser τ} (h : c.Within p q) (hb : q.Behind)
    (hrun : (rounds (statementsRound expr fuel endsProgram) bound
      (Node.mapTokensEach c.tree before)).run p = .done body r)
    (hrun' : (rounds (statementsRound expr' fuel' endsProgram) bound' before).run q =
      .done body' r') :
    ∃ (bound : Nat) (p' : Parser σ) (q' : Parser τ),
      (rounds (statementsRound expr fuel endsProgram) bound
        (Node.mapTokensEach c.tree body')).run p'.advance = .done body r ∧
      c.InStep [] p' q' ∧ r'.diagnostics = q'.diagnostics := by
  induction bound' generalizing bound before p q with
  | zero => cases hrun'
  | succ bound' ih =>
    cases bound with
    | zero => cases hrun
    | succ bound =>
      -- The end comes behind the semicolon, so that both loops read a statement.
      have hne : q.current.kind ≠ .eof := by
        obtain ⟨ts, h⟩ := h
        cases ts with
        | nil => simp [h.current_of_nil, hedge]
        | cons t ts => exact h.current_of_cons ▸ h.ne_eof_of_cons
      have hends : endsProgram p.current.kind = endsProgram q.current.kind := by
        rw [h.current_eq, kind_note_of_ne_eof hne]
      rw [rounds, run_bind_eq_done_iff] at hrun hrun'
      obtain ⟨x, p₁, hround, hrest⟩ := hrun
      obtain ⟨y, q₁, hround', hrest'⟩ := hrun'
      have hagrees := (statementsRound_agrees_between (R := fun _ _ => True) he h hb rfl hends
        (.inl rfl) (fun _ hk => absurd (hedge.symm.trans hk) (by decide)) [] before fuel
        fuel').of_done hround hround'
      cases x with
      | stop ss =>
        cases y with
        | next ss' => exact hagrees.elim
        | stop ss' =>
          -- The loops stop at the end only, and that is not reached yet.
          exact absurd (by simpa [endsProgram] using hagrees.2) hne
      | next ss =>
        cases y with
        | stop ss' => exact hagrees.elim
        | next ss' =>
          obtain ⟨rfl, hwithin | ⟨-, p', q', hinstep, rfl, hapart⟩, hbetween⟩ := hagrees
          · exact ih _ hwithin hbetween.behind hrest hrest'
          · -- The statement ended on the semicolon, and both sides have passed it.
            obtain rfl : p₁ = p'.advance := by
              rcases hapart with ⟨-, hp⟩ | ⟨hk, -⟩
              · exact hp
              · exact absurd (hedge.symm.trans hk) (by decide)
            -- The right program is at its end, and has been read.
            have hend : q'.advance.current = last := by
              have hright := hinstep.upcoming_right
              rw [List.nil_append, hlast] at hright
              exact Parser.current_of_upcoming (Parser.upcoming_advance_of_cons hright)
            have hstop : (statementsRound expr' fuel' endsProgram ss').run q'.advance =
                .done (.stop ss') q'.advance := by
              rw [statementsRound, run_bind_of_done (run_current _), hend, heof]
              rfl
            cases bound' with
            | zero => cases hrest'
            | succ bound' =>
              have hdone := (run_rounds_of_stop hstop).symm.trans hrest'
              obtain ⟨rfl, rfl⟩ := Outcome.done.inj hdone
              exact ⟨bound, p', q', hrest, hinstep, rfl⟩

/-- **Up to the end.** What the left program has read before stays in front. -/
theorem statements_agrees_final (he : c.Readers expr expr') (hf : c.Final) (h : c.Within p q)
    (hb : q.Behind) (front : List Node) (fuel fuel' bound bound' : Nat)
    {R : Parser σ → Parser τ → Prop} :
    ((rounds (statementsRound expr fuel endsProgram) bound front).run p).Agrees
      (fun ss ss' p' q' => ss = front ++ Node.mapTokensEach c.tree ss' ∧ c.Within p' q') R
      ((rounds (statementsRound expr' fuel' endsProgram) bound' []).run q) := by
  refine agrees_rounds (fun ss ss' (p' : Parser σ) (q' : Parser τ) =>
    ss = front ++ Node.mapTokensEach c.tree ss' ∧ c.Within p' q' ∧ q'.Behind) ?_
    ⟨(List.append_nil front).symm, h, hb⟩ bound bound'
  rintro _ ss p q ⟨rfl, ⟨ts, h⟩, hb⟩
  have hin : c.Inside p q := ⟨ts, h, .inr hf⟩
  refine (statementsRound_agrees_between he hin.within hb rfl
    (congrArg endsProgram hin.current_kind) (.inl rfl) (fun hc => absurd hf hc) front ss fuel
    fuel').mono (fun x y r r' hround => hround.mono ?_ ?_) fun _ _ h => h
  · rintro ss ss' ⟨rfl, hwithin | hapart, hbetween⟩
    · exact ⟨rfl, hwithin, hbetween.behind⟩
    · -- The end of the input is never passed.
      exact absurd hf hapart.1
  · rintro ss ss' ⟨⟨rfl, rfl, rfl⟩, -⟩
    exact ⟨rfl, hin.within⟩

end Loop

end Parse

open Comparison Parse in
/-- **What is behind is read as on its own.** The loop over statements has come to a place from
which on the tokens look like those of `s`. Then it adds the statements and the diagnostics of `s`
to what it has collected by then. -/
theorem Reading.of_rounds {σ τ : Type} [TokenStream σ] [TokenStream τ] [LawfulTokenStream σ]
    [LawfulTokenStream τ] {s : τ} {p r : Parser σ} {f : Token → Token}
    (hf : ∀ t, (f t).LooksLike t) (hg : p.Genuine) (hb : p.Behind)
    (hup : p.upcoming = (toList s).map f) {N fuel bound : Nat} {before body : List Node}
    (hrun : (rounds (statementsRound (expression N) fuel endsProgram) bound before).run p =
      .done body r) :
    body = before ++ Node.mapTokensEach f (Reading.ofStream s).program.statements ∧
      r.diagnostics = p.diagnostics ++
        (Reading.ofStream s).diagnostics.map (Diagnostic.mapToken f) := by
  obtain ⟨ts, e, hs, he, -⟩ := TokenStream.exists_toList_eq s
  obtain ⟨body', r', hrun', -, heq⟩ :=
    Reading.exists_run (Parser.genuine_ofStream s) (Parser.behind_ofStream s)
  have hfinal : (goingOn p hf he).Final := ⟨he, (hf e).1.trans he⟩
  have hgoingOn := inStep_goingOn hf he hg hb hs hup
  obtain ⟨hbody, us, hend⟩ := (statements_agrees_final (R := fun _ _ => True)
    (expression_agrees _ _ _) hfinal ⟨ts, hgoingOn⟩ (Parser.behind_ofStream s) before fuel _ bound
    _).of_done hrun hrun'
  rw [Reading.ofStream, heq]
  exact ⟨hbody, hend.diagnostics_eq⟩

open Comparison Parse in
/-- **Reading two programs in a row.** The tokens of `s` are those of `s₁` up to a semicolon, and
behind it those of `s₂`, or tokens that look like them. Then the statements and the diagnostics of
`s` are those of `s₁` and behind them those of `s₂`. -/
theorem Reading.ofStream_append {σ σ₁ σ₂ : Type} [TokenStream σ] [TokenStream σ₁] [TokenStream σ₂]
    [LawfulTokenStream σ] [LawfulTokenStream σ₁] [LawfulTokenStream σ₂] {s : σ} {s₁ : σ₁} {s₂ : σ₂}
    {ts : List Token} {semicolon last : Token} {f : Token → Token} (hf : ∀ t, (f t).LooksLike t)
    (hs : toList s = ts ++ semicolon :: (toList s₂).map f)
    (hs₁ : toList s₁ = ts ++ [semicolon, last]) (hk : semicolon.kind = .semicolon)
    (hsealed : Sealed ts) :
    (Reading.ofStream s).program.statements = (Reading.ofStream s₁).program.statements ++
        Node.mapTokensEach f (Reading.ofStream s₂).program.statements ∧
      (Reading.ofStream s).diagnostics = (Reading.ofStream s₁).diagnostics ++
        (Reading.ofStream s₂).diagnostics.map (Diagnostic.mapToken f) := by
  have hlast : last.kind = .eof := by
    obtain ⟨us₁, e₁, hend, he₁, -⟩ := TokenStream.exists_toList_eq s₁
    have hlasts := congrArg List.getLast? (hs₁.symm.trans hend)
    simp at hlasts
    exact hlasts ▸ he₁
  -- The programs are read to the end.
  obtain ⟨body, r, hrun, -, heq⟩ :=
    Reading.exists_run (Parser.genuine_ofStream s) (Parser.behind_ofStream s)
  obtain ⟨body₁, r₁, hrun₁, -, heq₁⟩ :=
    Reading.exists_run (Parser.genuine_ofStream s₁) (Parser.behind_ofStream s₁)
  -- Up to the semicolon.
  obtain ⟨bound, p, q, hrest, hsemicolon, hdiagnostics⟩ :=
    exists_rounds_behind_semicolon (expression_agrees _ _ _) hk rfl hlast []
      ⟨ts, inStep_upTo hk hs hs₁ hsealed⟩ (Parser.behind_ofStream s₁) hrun hrun₁
  have hup : p.advance.upcoming = (toList s₂).map f := by
    have hleft : p.upcoming = semicolon :: (toList s₂).map f := hsemicolon.upcoming_left
    rw [Parser.upcoming_of_ne_eof (by rw [Parser.current_of_upcoming hleft, hk]; decide)] at hleft
    exact (List.cons.inj hleft).2
  -- Behind it.
  obtain ⟨hbody, hbehind⟩ := Reading.of_rounds hf hsemicolon.genuine_left.advance
    hsemicolon.abreast_left.advance hup hrest
  rw [Reading.ofStream, heq, Reading.ofStream, heq₁]
  refine ⟨?_, ?_⟩
  · rw [hbody]
    exact congrArg (· ++ _) (Node.mapTokensEach_id body₁)
  · have hleft : p.diagnostics = q.diagnostics.map (Diagnostic.mapToken id) :=
      hsemicolon.diagnostics_eq
    have hsame : q.diagnostics.map (Diagnostic.mapToken id) = q.diagnostics :=
      (List.map_congr_left fun d _ => d.mapToken_id).trans (List.map_id _)
    have hstart : p.advance.diagnostics = r₁.diagnostics := by
      rw [Parser.diagnostics_advance, hleft, hsame, hdiagnostics]
    rw [hbehind, hstart]

/-! ### Texts -/

theorem Token.moveDown_looksLike (n : Nat) (t : Token) : (t.moveDown n).LooksLike t :=
  ⟨rfl, rfl⟩

/-- The message says the same, of a place further down. -/
theorem Diagnostic.message_moveDown (n : Nat) (d : Diagnostic) :
    (d.mapToken (Token.moveDown n)).message = d.complaint ++ placeText (d.token.moveDown n) := by
  cases d <;> rfl

/-- **Errors do not pass a semicolon.** If every opening brace of the first text has its match
there, and the text does not end inside a string, then the second text is read from the line below a
semicolon as it is on its own: its statements follow those of the first text and the semicolon, and
its diagnostics follow theirs, with only their lines changed. -/
theorem parse_semicolon_newline (first second : String) (hbraces : Matched (tokenize first))
    (hstring : ¬ EndsInString first) :
    ((parse (first ++ ";\n" ++ second)).program ==
        ⟨(parse (first ++ ";")).program.statements ++ (parse second).program.statements⟩) = true ∧
      (parse (first ++ ";\n" ++ second)).diagnostics =
        (parse (first ++ ";")).diagnostics ++ (parse second).diagnostics.map
          (Diagnostic.mapToken (Token.moveDown (1 + first.toList.count '\n'))) ∧
      (parse (first ++ ";\n" ++ second)).messages =
        (parse (first ++ ";")).messages ++ (parse second).diagnostics.map fun d =>
          d.complaint ++ Diagnostic.placeText (d.token.moveDown (1 + first.toList.count '\n')) := by
  obtain ⟨ts, e, htokens, he, -⟩ :=
    TokenStream.exists_toList_eq (Scanner.Cursor.ofString first)
  have hdrop : (tokenize first).dropLast = ts := by
    rw [tokenize, htokens, List.dropLast_concat]
  have hsealed : Sealed ts := by
    have hall : Sealed (ts ++ [e]) := htokens ▸ hbraces.sealed
    exact hall.of_append (by simp [strays, he])
  obtain ⟨last, hfirst⟩ := tokenize_semicolon hstring
  have hwhole := tokenize_semicolon_newline hstring second
  rw [hdrop] at hfirst hwhole
  obtain ⟨hstatements, hdiagnostics⟩ := Reading.ofStream_append
    (Token.moveDown_looksLike (1 + first.toList.count '\n')) hwhole hfirst rfl hsealed
  refine ⟨?_, hdiagnostics, ?_⟩
  · change Node.sameEach (parse (first ++ ";\n" ++ second)).program.statements _ = true
    rw [show (parse (first ++ ";\n" ++ second)).program.statements = _ from hstatements]
    apply Node.sameEach_of_map_plan_eq
    rw [List.map_append, List.map_append, Node.map_plan_mapTokensEach]
    rfl
  · have hmessages := congrArg (List.map Diagnostic.message) hdiagnostics
    rw [List.map_append, List.map_map] at hmessages
    refine hmessages.trans (congrArg _ (List.map_congr_left fun d _ => ?_))
    exact d.message_moveDown _

/-- Statements that break off inside a block and at the end of the text. -/
def brokenStatements : String :=
  "let 1 \x7b fn(x) \x7b + \x7d \x7d \"a;b\"\nif (y"

theorem parse_semicolon_newline_broken :
    Matched (tokenize brokenStatements) ∧ ¬ EndsInString brokenStatements ∧
      (parse (brokenStatements ++ ";\n" ++ "z\n\x7d")).messages =
        ["expected next token to be IDENTIFIER, but got INT instead at line 1, col 5",
          "expected next token to be ), but got ; instead at line 2, col 6",
          "no prefix parse function for \x7d found at line 4, col 1"] := by
  have hbraces : Matched (tokenize brokenStatements) := by decide +kernel
  have hstring : ¬ EndsInString brokenStatements := by decide +kernel
  refine ⟨hbraces, hstring, ?_⟩
  rw [(parse_semicolon_newline brokenStatements "z\n\x7d" hbraces hstring).2.2]
  decide +kernel

end MonkeySyntax
