import MonkeySyntax.Proofs.CommonPrefix
import MonkeySyntax.Proofs.Plan
import MonkeySyntax.Proofs.WellFormed
import MonkeySyntax.Tree.Rendering

/-!
# Formatting does not matter

Two texts have the same tokens up to places: only blanks, line ends and what else the scanner skips
distinguish them. Then reading the one comes out as reading the other, also where there is something
wrong with them. The programs are the same and print alike, and the diagnostics say the same things
of the same tokens in the same order.

The proof runs the two parsers side by side (`Parser.Alike`). They have always passed equally many
tokens, so they see tokens that look alike. The one place where the parser asks for more than the
look of a token is recovery, which wants to know whether a brace is the very one that closed a
block. This is decided by the index of the brace, and the indices are the same on both sides; had it
been decided by comparing tokens with their places, layout could have made a difference.
-/

namespace MonkeySyntax

open TokenStream (toList)

theorem Token.literal_unplaced (t : Token) : t.unplaced.literal = t.literal := rfl

/-! ### Trees that look alike -/

namespace Node

variable {f : Token → Token}

/-- Trees that look alike have the same plans. -/
theorem EachLooksLike.map_plan_eq {ms ns : List Node} (h : EachLooksLike ms ns) :
    ms.map plan = ns.map plan :=
  calc ms.map plan
      = (mapTokensEach Token.unplaced ms).map plan := (map_plan_mapTokensEach _ ms).symm
    _ = (mapTokensEach Token.unplaced ns).map plan := by rw [h.eq]
    _ = ns.map plan := map_plan_mapTokensEach _ ns

/-- The canonical text takes nothing from a token but its literal. -/
theorem render_mapTokens (hf : ∀ t, (f t).literal = t.literal) (n : Node) :
    (n.mapTokens f).render = n.render := by
  induction n using inductionOnChildren with
  | step n ih =>
    have heach : ∀ ns : List Node, (∀ c ∈ ns, c ∈ n.children) →
        renderEach (mapTokensEach f ns) = renderEach ns := by
      intro ns hns
      rw [mapTokensEach_eq_map, renderEach_eq_map, renderEach_eq_map, List.map_map]
      exact List.map_congr_left fun c hc => ih c (hns c hc)
    cases n with
    | conditional t condition consequence alternative =>
      cases alternative <;> simp_all [mapTokens, render, children]
    | _ => simp_all [mapTokens, render, children]

end Node

namespace Program

variable {p q : Program}

theorem same_of_eachLooksLike (h : Node.EachLooksLike p.statements q.statements) :
    (p == q) = true :=
  Node.sameEach_of_map_plan_eq h.map_plan_eq

theorem render_eq_of_eachLooksLike (h : Node.EachLooksLike p.statements q.statements) :
    p.render = q.render := by
  have hprog : p.toNode.mapTokens Token.unplaced = q.toNode.mapTokens Token.unplaced :=
    congrArg Node.program h.eq
  calc p.render
      = (p.toNode.mapTokens Token.unplaced).render :=
        (Node.render_mapTokens Token.literal_unplaced _).symm
    _ = (q.toNode.mapTokens Token.unplaced).render := by rw [hprog]
    _ = q.render := Node.render_mapTokens Token.literal_unplaced _

theorem debugText?_eq_of_eachLooksLike (h : Node.EachLooksLike p.statements q.statements) :
    p.debugText? = q.debugText? := by
  have hplan : p.toNode.plan = q.toNode.plan := by
    rw [toNode, toNode, Node.plan_program, Node.plan_program, h.map_plan_eq]
  rw [debugText?, debugText?, ← Node.debugText?_plan, hplan, Node.debugText?_plan]

end Program

/-! ### Diagnostics that say the same -/

namespace Diagnostic

variable {ts us : List Token} {d e : Diagnostic}

theorem complaint_about {t u : Token} (h : t.LooksLike u) (d : Diagnostic) :
    (d.about u).complaint = (d.about t).complaint := by
  cases d with
  | expected kind _ =>
    show "expected next token to be " ++ kind.display ++ ", but got " ++ u.kind.display ++
      " instead" = _
    rw [← h.1]
    rfl
  | noExpression _ =>
    show "no prefix parse function for " ++ u.kind.display ++ " found" = _
    rw [← h.1]
    rfl
  | badInteger _ =>
    show "could not parse \"" ++ u.literal ++ "\" as integer" = _
    rw [← h.2]
    rfl

/-- The two diagnostics find the same fault with the tokens of one index. -/
structure Corresponds (ts us : List Token) (d e : Diagnostic) : Prop where
  exists_index : ∃ k : Nat, ts[k]? = some d.token ∧ us[k]? = some e.token
  complaint_eq : e.complaint = d.complaint

/-- A fault with the token of some index on the one side, and with that of the same index on the
other. -/
theorem corresponds_about {k : Nat} {t u : Token} (ht : ts[k]? = some t) (hu : us[k]? = some u)
    (h : t.LooksLike u) (d : Diagnostic) : Corresponds ts us (d.about t) (d.about u) where
  exists_index := ⟨k, by rw [token_about, ht], by rw [token_about, hu]⟩
  complaint_eq := complaint_about h d

theorem corresponds_of_getElem? {ds es : List Diagnostic}
    (h : List.Forall₂ (Corresponds ts us) ds es) {i : Nat} (hd : ds[i]? = some d)
    (he : es[i]? = some e) : Corresponds ts us d e := by
  obtain ⟨hlt, rfl⟩ := List.getElem?_eq_some_iff.1 hd
  obtain ⟨hlt', rfl⟩ := List.getElem?_eq_some_iff.1 he
  exact h.get hlt hlt'

end Diagnostic

/-- The messages stand in the order of the diagnostics. -/
theorem Reading.messages_getElem? {reading : Reading} {i : Nat} {d : Diagnostic}
    (h : reading.diagnostics[i]? = some d) :
    reading.messages[i]? = some (d.complaint ++ Diagnostic.placeText d.token) := by
  rw [messages, List.getElem?_map, h]
  rfl

/-! ### Two parsers side by side -/

namespace Parser

variable {σ τ : Type} [TokenStream σ] [TokenStream τ] {s : σ} {s' : τ} {p : Parser σ}
  {p' : Parser τ}

omit [TokenStream σ] in
/-- Whether the parser stands on the brace that closed a block is a question of indices. -/
theorem onClosed_eq (p : Parser σ) :
    p.onClosed = decide (p.closed.map Prod.fst = some p.index) := by
  cases h : p.closed with
  | none => simp [onClosed, h]
  | some entry => simp [onClosed, h, beq_eq_decide]

/-- The two parsers have done the same, each on its own stream. -/
structure Alike (s : σ) (s' : τ) (p : Parser σ) (p' : Parser τ) : Prop where
  left : p.Reachable s
  right : p'.Reachable s'
  index_eq : p'.index = p.index
  closed_eq : p'.closed.map Prod.fst = p.closed.map Prod.fst
  corresponds :
    List.Forall₂ (Diagnostic.Corresponds (toList s) (toList s')) p.diagnostics p'.diagnostics

namespace Alike

theorem start (s : σ) (s' : τ) : Alike s s' (ofStream s) (ofStream s') :=
  ⟨.start, .start, rfl, rfl, .nil⟩

theorem advance (h : Alike s s' p p') : Alike s s' p.advance p'.advance :=
  ⟨h.left.advance, h.right.advance, congrArg Nat.succ h.index_eq, h.closed_eq, h.corresponds⟩

theorem drop (h : Alike s s' p p') : Alike s s' p.drop p'.drop :=
  ⟨h.left.drop, h.right.drop, h.index_eq, h.closed_eq, h.corresponds⟩

theorem report (h : Alike s s' p p') {d d' : Diagnostic}
    (hd : d.Corresponds (toList s) (toList s') d') : Alike s s' (p.report d) (p'.report d') :=
  ⟨h.left.report d, h.right.report d', h.index_eq, h.closed_eq,
    List.rel_append h.corresponds (.cons hd .nil)⟩

theorem onClosed_eq (h : Alike s s' p p') : p.onClosed = p'.onClosed := by
  rw [Parser.onClosed_eq, Parser.onClosed_eq, h.closed_eq, h.index_eq]

variable [LawfulTokenStream σ] [LawfulTokenStream τ]
  (hs : List.Forall₂ Token.LooksLike (toList s) (toList s'))

include hs

/-- The current tokens have one index, and look alike. -/
theorem exists_current (h : Alike s s' p p') : ∃ k : Nat, (toList s)[k]? = some p.current ∧
    (toList s')[k]? = some p'.current ∧ p.current.LooksLike p'.current := by
  have hleft := h.left.getElem?_min
  have hright := h.right.getElem?_min
  rw [h.index_eq, ← hs.length_eq] at hright
  obtain ⟨u, hu, hlooks⟩ := exists_looksLike_of_forall₂ hs hleft
  obtain rfl : u = p'.current := Option.some.inj (hu.symm.trans hright)
  exact ⟨_, hleft, hu, hlooks⟩

theorem looksLike (h : Alike s s' p p') : p.current.LooksLike p'.current := by
  obtain ⟨-, -, -, hlooks⟩ := h.exists_current hs
  exact hlooks

theorem closeBlock (h : Alike s s' p p') : Alike s s' p.closeBlock p'.closeBlock := by
  refine ⟨h.left.closeBlock, h.right.closeBlock, ?_, ?_, ?_⟩
  · simpa using h.index_eq
  · -- Both parsers stand on a closing brace, or neither does.
    rw [closed_closeBlock, closed_closeBlock, (h.looksLike hs).1, h.index_eq]
    split
    · rfl
    · exact h.closed_eq
  · simpa using h.corresponds

/-- The same verdict on the two current tokens. -/
theorem report_about (h : Alike s s' p p') (d : Diagnostic) :
    Alike s s' (p.report (d.about p.current)) (p'.report (d.about p'.current)) := by
  obtain ⟨k, ht, hu, hlooks⟩ := h.exists_current hs
  exact h.report (Diagnostic.corresponds_about ht hu hlooks d)

/-- The same verdict on the tokens that come next. -/
theorem report_expected (h : Alike s s' p p') (kind : TokenKind) :
    Alike s s' (p.report (.expected kind p.peek)) (p'.report (.expected kind p'.peek)) := by
  obtain ⟨k, ht, hu, hlooks⟩ := h.advance.exists_current hs
  exact h.report (Diagnostic.corresponds_about ht hu hlooks (.expected kind p.peek))

end Alike

end Parser

open MonkeySyntax.Parser (Alike)

namespace Parse

variable {σ τ α : Type} [TokenStream σ] [TokenStream τ] [LawfulTokenStream σ]
  [LawfulTokenStream τ] {s : σ} {s' : τ} {R : α → α → Prop}

theorem expect_alike (hs : List.Forall₂ Token.LooksLike (toList s) (toList s')) {p : Parser σ}
    {p' : Parser τ} (hp : Alike s s' p p') (kind : TokenKind) :
    ((expect kind).run p).Agrees (fun a a' q q' => a = a' ∧ Alike s s' q q') (Alike s s')
      ((expect kind).run p') := by
  have hpeek : p.peek.LooksLike p'.peek := hp.advance.looksLike hs
  rw [run_expect, run_expect, hpeek.1]
  split
  · exact ⟨rfl, hp.advance⟩
  · exact hp.report_expected hs kind

/-- **Two actions of one make come out alike**, begun on two parsers that have done the same. -/
theorem Parallel.agrees (hs : List.Forall₂ Token.LooksLike (toList s) (toList s')) {j : Bool}
    {b c : Stage} {m : Parse σ α} {m' : Parse τ α} (h : Parallel j b c R m m') {p : Parser σ}
    {p' : Parser τ} (hp : Alike s s' p p') :
    (m.run p).Agrees (fun a a' q q' => R a a' ∧ Alike s s' q q') (Alike s s') (m'.run p') := by
  induction h generalizing p p' with
  | pure ha => exact ⟨ha, hp⟩
  | bind _ _ _ ihm ihf =>
    apply agrees_bind
    exact (ihm hp).mono (fun a a' q q' hq => ihf a a' hq.1 hq.2) fun _ _ hq => hq
  | current => exact ⟨hp.looksLike hs, hp⟩
  | peek => exact ⟨hp.advance.looksLike hs, hp⟩
  | onClosed => exact ⟨hp.onClosed_eq, hp⟩
  | advance => exact ⟨rfl, hp.advance⟩
  | closeBlock => exact ⟨rfl, hp.closeBlock hs⟩
  | expect kind => exact expect_alike hs hp kind
  | judge passes _ hfails ih =>
    have hlooks := hp.looksLike hs
    rw [agrees_current]
    by_cases ht : passes p.current
    · exact ih _ _ hlooks ht hp
    · obtain ⟨d, hd, hd'⟩ := hfails _ _ hlooks ht
      rw [hd, hd']
      exact hp.report_about hs d
  | attempt _ _ _ _ ihm ihsome ihnone =>
    apply agrees_bind
    apply agrees_attempt
    exact (ihm hp).mono (fun a a' q q' hq => ihsome a a' hq.1 hq.2) fun q q' hq => ihnone hq.drop
  | braces _ _ _ ihf ihg =>
    apply agrees_bind
    refine (expect_alike hs hp .leftBrace).mono (fun _ _ q q' hq => ?_) fun _ _ hq => hq
    -- Both parsers have come to the brace. The block begins behind it.
    have hlooks := hq.2.looksLike hs
    apply agrees_bind
    rw [agrees_current, agrees_advance]
    exact (ihf _ _ hlooks hq.2.advance).mono (fun a a' r r' hr => ihg a a' hr.1 hr.2)
      fun _ _ hr => hr
  | outOfFuel _ => trivial
  | outOfFuel_right _ =>
    -- The second side has run out, so nothing is asked of the first.
    rename_i m _
    show Outcome.Agrees _ _ (m.run p) .outOfFuel
    cases m.run p <;> trivial
  | settle _ ih => exact ih hp
  | forget _ ih => exact ih hp

end Parse

/-! ### Programs -/

section Programs

variable {σ τ : Type} [TokenStream σ] [TokenStream τ] [LawfulTokenStream σ] [LawfulTokenStream τ]

open Parse in
/-- Streams of tokens that look alike are read alike. -/
theorem Reading.ofStream_alike {s : σ} {s' : τ}
    (hs : List.Forall₂ Token.LooksLike (toList s) (toList s')) :
    Node.EachLooksLike (ofStream s).program.statements (ofStream s').program.statements ∧
      List.Forall₂ (Diagnostic.Corresponds (toList s) (toList s')) (ofStream s).diagnostics
        (ofStream s').diagnostics := by
  obtain ⟨body, q, hrun, -, heq⟩ :=
    exists_run (Parser.genuine_ofStream s) (Parser.behind_ofStream s)
  obtain ⟨body', q', hrun', -, heq'⟩ :=
    exists_run (Parser.genuine_ofStream s') (Parser.behind_ofStream s')
  have hagrees := (statements_parallel
    (expression_parallel (Parser.ofStream s).fuel (Parser.ofStream s').fuel)
    (Parser.ofStream s).fuel (Parser.ofStream s').fuel endsProgram).agrees hs (Alike.start s s')
  have hends := hagrees.of_done hrun hrun'
  rw [ofStream, ofStream, heq, heq']
  exact ⟨hends.1, hends.2.corresponds⟩

/-- A program that has been read has a debugging text, as its numbers have 64 bits. -/
theorem Reading.exists_debugText? (s : σ) : ∃ text, (ofStream s).program.debugText? = some text := by
  obtain ⟨hdrawn, -⟩ := Reading.drawn_ofStream s
  rw [← Option.isSome_iff_exists, Program.debugText?, Node.isSome_debugText?_iff]
  rintro i ⟨t, ht⟩
  cases ht with
  | child hc ht =>
    obtain ⟨-, hvalue⟩ := (hdrawn.wellMade _ hc _ ht).1
    exact Numeral.length_toDigits_le_of_inRange (Numeral.inRange_of_value? hvalue)

/-- **Formatting does not matter.** Texts whose tokens differ in their places only are read as the
same program, which is rendered and shown alike. The diagnostics are equally many, and those of one
index find the same fault with tokens of one index, so that only the place in the message differs.
-/
theorem parse_of_looksLike {source source' : String}
    (h : List.Forall₂ Token.LooksLike (tokenize source) (tokenize source')) :
    ((parse source).program == (parse source').program) = true ∧
      (parse source).program.render = (parse source').program.render ∧
      (∃ text, (parse source).program.debugText? = some text ∧
        (parse source').program.debugText? = some text) ∧
      (parse source).messages.length = (parse source').messages.length ∧
      ∀ (i : Nat) (d d' : Diagnostic), (parse source).diagnostics[i]? = some d →
        (parse source').diagnostics[i]? = some d' →
        ∃ (k : Nat) (complaint : String), (tokenize source)[k]? = some d.token ∧
          (tokenize source')[k]? = some d'.token ∧
          (parse source).messages[i]? = some (complaint ++ Diagnostic.placeText d.token) ∧
          (parse source').messages[i]? = some (complaint ++ Diagnostic.placeText d'.token) := by
  obtain ⟨htrees, hreports⟩ :
      Node.EachLooksLike (parse source).program.statements (parse source').program.statements ∧
        List.Forall₂ (Diagnostic.Corresponds (tokenize source) (tokenize source'))
          (parse source).diagnostics (parse source').diagnostics :=
    Reading.ofStream_alike h
  obtain ⟨text, htext⟩ := Reading.exists_debugText? (Scanner.Cursor.ofString source)
  have htext' := Program.debugText?_eq_of_eachLooksLike htrees
  refine ⟨Program.same_of_eachLooksLike htrees, Program.render_eq_of_eachLooksLike htrees,
    ⟨text, htext, htext'.symm.trans htext⟩, ?_, ?_⟩
  · rw [Reading.messages, Reading.messages, List.length_map, List.length_map]
    exact hreports.length_eq
  · intro i d d' hd hd'
    have hcor := Diagnostic.corresponds_of_getElem? hreports hd hd'
    obtain ⟨k, hk, hk'⟩ := hcor.exists_index
    refine ⟨k, d.complaint, hk, hk', Reading.messages_getElem? hd, ?_⟩
    rw [← hcor.complaint_eq]
    exact Reading.messages_getElem? hd'

/-- A parenthesis that is not closed behind a block, inside another block, on one line and on
several ones. -/
theorem parse_of_looksLike_blocks :
    List.Forall₂ Token.LooksLike (tokenize "fn()\x7b(fn()\x7b1\x7d2;y\x7dz")
      (tokenize "fn() \x7b\n (fn() \x7b1\x7d\n 2; y\n\x7d z") ∧
    ∃ (k : Nat) (complaint : String),
      (tokenize "fn()\x7b(fn()\x7b1\x7d2;y\x7dz")[k]? = some ⟨.int, "2", 1, 14⟩ ∧
      (tokenize "fn() \x7b\n (fn() \x7b1\x7d\n 2; y\n\x7d z")[k]? = some ⟨.int, "2", 3, 2⟩ ∧
      (parse "fn()\x7b(fn()\x7b1\x7d2;y\x7dz").messages[0]? =
        some (complaint ++ " at line 1, col 14") ∧
      (parse "fn() \x7b\n (fn() \x7b1\x7d\n 2; y\n\x7d z").messages[0]? =
        some (complaint ++ " at line 3, col 2") := by
  have hlooks : List.Forall₂ Token.LooksLike (tokenize "fn()\x7b(fn()\x7b1\x7d2;y\x7dz")
      (tokenize "fn() \x7b\n (fn() \x7b1\x7d\n 2; y\n\x7d z") := by
    decide +kernel
  obtain ⟨-, -, -, -, hmessages⟩ := parse_of_looksLike hlooks
  exact ⟨hlooks, hmessages 0 (.expected .rightParen ⟨.int, "2", 1, 14⟩)
    (.expected .rightParen ⟨.int, "2", 3, 2⟩) (by decide +kernel) (by decide +kernel)⟩

end Programs

end MonkeySyntax
