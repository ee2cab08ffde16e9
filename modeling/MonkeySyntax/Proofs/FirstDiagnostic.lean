import MonkeySyntax.Proofs.CommonPrefix
import MonkeySyntax.Proofs.Mending
import MonkeySyntax.Proofs.Spelling.Completeness
import MonkeySyntax.Proofs.TokenOrder

/-!
# The first diagnostic stands at the earliest place

The token that is reported first is the first one with which the text cannot be right any more. What
stands before it can be the beginning of a text without mistakes, for it can be completed to a
sequence of statements, and this can be printed (`Parse.statements_mends`). And with it no text is
without mistakes: each text that begins with the same tokens, this one included, is given the same
first diagnostic (`Reading.head_of_common`).

The end of the input is an exception to the latter. A text can be cut off at a place where it might
have gone on, and then the end is reported.
-/

namespace MonkeySyntax

open Parse

open MonkeySyntax.Parser (Mends genuine_ofStream behind_ofStream upcoming_ofStream)

open Phrases (sequences)

open TokenStream (toList kind_ne_eof_iff)

/-- The first tokens of the two texts, so many of them, have the same kinds and literals. -/
def BeginAlike (count : Nat) (source source' : String) : Prop :=
  List.Forall₂ Token.LooksLike ((tokenize source).take count) ((tokenize source').take count)

/-! ### What stands before it -/

/-- What stands before the first token reported can be completed to statements without mistakes. -/
theorem Reading.exists_completion {σ : Type} [TokenStream σ] [LawfulTokenStream σ] (s : σ)
    {d : Diagnostic} (h : (Reading.ofStream s).diagnostics.head? = some d) :
    ∃ before behind rest, before ++ behind ∈ sequences ∧
      toList s = before ++ d.token :: rest ∧ ∀ t ∈ behind, t.Lexical := by
  obtain ⟨body, q, hrun, -, heq⟩ := Reading.exists_run (genuine_ofStream s) (behind_ofStream s)
  have hmends : ((statements (expression (Parser.ofStream s).fuel) (Parser.ofStream s).fuel
      endsProgram).run (Parser.ofStream s)).Meets True
      (fun _ q => Mends sequences (Parser.ofStream s) q) fun _ => True :=
    statements_mends (expression_mending _) (genuine_ofStream s) rfl
  rw [hrun] at hmends
  rw [Reading.ofStream, heq] at h
  obtain ⟨ts, hts, before, behind, rest, rfl, hup, hbehind⟩ := hmends.exists_until rfl d h
  rw [upcoming_ofStream] at hup
  exact ⟨before, behind, rest, hts, hup, hbehind⟩

/-- Statements that can be printed are the statements of a text without mistakes. -/
theorem exists_parse_of_sequences {ts : List Token} (h : ts ∈ sequences)
    (hlexical : ∀ t ∈ ts, t.Lexical) :
    ∃ source, (parse source).diagnostics = [] ∧
      List.Forall₂ Token.LooksLike (tokenize source).dropLast ts := by
  obtain ⟨ss, hss⟩ := h
  obtain ⟨source, hscan⟩ := exists_tokenize_of_lexical hlexical
  have hspelled : (Program.mk ss).Spelled (ts ++ []) := by
    rw [List.append_nil]
    exact hss
  exact ⟨source, (Reading.same_of_spelled _ hspelled (by simp) hscan).1, hscan⟩

/-! ### The place of the first diagnostic -/

/-- Texts that begin alike up to a token before the end have it in common. -/
theorem BeginAlike.common {source source' : String} {i : Nat}
    (h : BeginAlike (i + 1) source source') (hi : i + 1 < (tokenize source).length) :
    Common i (tokenize source) (tokenize source') := by
  have hlt := Nat.lt_succ_self i
  obtain ⟨t, ht⟩ : ∃ t, (tokenize source)[i]? = some t :=
    ⟨_, List.getElem?_eq_getElem (Nat.lt_trans hlt hi)⟩
  obtain ⟨t', ht', hlooks⟩ := exists_looksLike_of_forall₂ h (k := i)
    (by rw [List.getElem?_take_of_lt hlt, ht])
  rw [List.getElem?_take_of_lt hlt] at ht'
  -- The other text goes on as well, for this is not the end.
  have hne : t'.kind ≠ .eof := hlooks.1 ▸ (kind_ne_eof_iff ht).2 hi
  exact ⟨h, hi, (kind_ne_eof_iff ht').1 hne⟩

/-- What is printed behind the tokens before some place does not matter to these. -/
theorem beginAlike_of_scan {source source' : String} {before behind rest : List Token}
    (h : tokenize source = before ++ rest)
    (hscan : List.Forall₂ Token.LooksLike (tokenize source').dropLast (before ++ behind)) :
    BeginAlike before.length source source' := by
  have htake := List.forall₂_take before.length hscan
  have hlen := hscan.length_eq
  rw [List.length_append, List.length_dropLast] at hlen
  rw [List.dropLast_eq_take, List.take_take, Nat.min_eq_left (by omega), List.take_left] at htake
  rw [BeginAlike, h, List.take_left]
  exact htake.flip.imp fun _ _ hlooks => ⟨hlooks.1.symm, hlooks.2.symm⟩

/-- **The first diagnostic points at the earliest possible token.** Let `i` be the index of the
token that it names, which is the only one at its place. Then some text without mistakes begins with
the tokens before that one; and unless it is the end of the input, no text without mistakes begins
with these and with the token itself: the first diagnostic of such a text is the same one, about its
own token of the index `i`. -/
theorem first_diagnostic_earliest (source : String) {d : Diagnostic} {ds : List Diagnostic}
    (h : (parse source).diagnostics = d :: ds) :
    ∃ i, (tokenize source)[i]? = some d.token ∧
      (∀ t ∈ tokenize source, t.line = d.token.line → t.col = d.token.col → t = d.token) ∧
      (∃ source', BeginAlike i source source' ∧ (parse source').diagnostics = []) ∧
      (i + 1 < (tokenize source).length → ∀ source', BeginAlike (i + 1) source source' →
        ∃ t' ds', (tokenize source')[i]? = some t' ∧
          (parse source').diagnostics = d.about t' :: ds') := by
  have hhead : (Reading.ofStream (Scanner.Cursor.ofString source)).diagnostics.head? = some d := by
    change (parse source).diagnostics.head? = some d
    rw [h, List.head?_cons]
  -- The index is the number of tokens before the one reported.
  obtain ⟨before, behind, rest, hmem, htokens, hbehind⟩ := Reading.exists_completion _ hhead
  change tokenize source = before ++ d.token :: rest at htokens
  have hi : (tokenize source)[before.length]? = some d.token := by
    rw [htokens, List.getElem?_append_right (Nat.le_refl _), Nat.sub_self, List.getElem?_cons_zero]
  have hd : d.token ∈ tokenize source := List.mem_of_getElem? hi
  refine ⟨before.length, hi, fun t ht hline hcol => eq_of_mem_tokenize ht hd hline hcol, ?_,
    fun hlt source' halike => ?_⟩
  · -- What stands before it, and what it is completed by, is printed with blanks in between.
    have hlexical : ∀ t ∈ before ++ behind, t.Lexical := by
      intro t ht
      rcases List.mem_append.1 ht with ht | ht
      · have hmem : t ∈ (tokenize source).dropLast := by
          rw [htokens, List.dropLast_append_cons]
          exact List.mem_append_left _ ht
        exact lexical_of_mem_tokenize hmem
      · exact hbehind t ht
    obtain ⟨source', hnone, hscan⟩ := exists_parse_of_sequences hmem hlexical
    exact ⟨source', beginAlike_of_scan htokens hscan, hnone⟩
  · obtain ⟨t', ht', hhead'⟩ :=
      Reading.head_of_common (halike.common hlt) (tokenize_nodup source) hi hhead
    obtain ⟨ds', hds'⟩ := List.head?_eq_some_iff.1 hhead'
    exact ⟨t', ds', ht', hds'⟩

/-- A name may follow `let`, but after it comes the equality sign and nothing else. -/
theorem first_diagnostic_earliest_let :
    (tokenize "fn() \x7b let x 5; y").take 7 = [⟨.functionKeyword, "fn", 1, 1⟩,
      ⟨.leftParen, "(", 1, 3⟩, ⟨.rightParen, ")", 1, 4⟩, ⟨.leftBrace, "\x7b", 1, 6⟩,
      ⟨.letKeyword, "let", 1, 8⟩, ⟨.identifier, "x", 1, 12⟩, ⟨.int, "5", 1, 14⟩] ∧
    (∃ source', BeginAlike 6 "fn() \x7b let x 5; y" source' ∧ (parse source').diagnostics = []) ∧
    ∀ source', BeginAlike 7 "fn() \x7b let x 5; y" source' →
      ∃ t' ds', (tokenize source')[6]? = some t' ∧
        (parse source').diagnostics = .expected .assign t' :: ds' := by
  have hdiagnostics : (parse "fn() \x7b let x 5; y").diagnostics =
      [.expected .assign ⟨.int, "5", 1, 14⟩] := by
    decide +kernel
  have hlength : (tokenize "fn() \x7b let x 5; y").length = 10 := by decide +kernel
  have hsix : (tokenize "fn() \x7b let x 5; y")[6]? = some ⟨.int, "5", 1, 14⟩ := by
    decide +kernel
  obtain ⟨i, hi, -, hbefore, hwith⟩ := first_diagnostic_earliest _ hdiagnostics
  have hlt : i < (tokenize "fn() \x7b let x 5; y").length := (List.getElem?_eq_some_iff.1 hi).1
  obtain rfl : i = 6 := (List.getElem?_inj hlt (tokenize_nodup _)).1 (hi.trans hsix.symm)
  exact ⟨by decide +kernel, hbefore, hwith (by rw [hlength]; decide)⟩

end MonkeySyntax
