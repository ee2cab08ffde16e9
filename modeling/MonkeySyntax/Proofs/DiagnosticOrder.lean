import Mathlib.Data.List.Forall2
import MonkeySyntax.Proofs.Numerals
import MonkeySyntax.Proofs.Printing
import MonkeySyntax.Proofs.Progress
import MonkeySyntax.Proofs.Reading
import MonkeySyntax.Proofs.Reporting

/-!
# Diagnostics come in the order of the text

Each diagnostic names a token of the text and finds fault with it for a reason, and the tokens are
named from the first to the last, where one token may be named again (`Diagnostic.LocatedUpTo`).
This is not for want of looking ahead: a diagnostic may be about the token behind the current one,
and the parser may then stop short of that token, on it, or on a brace before it. But what may still
be reported never lies before what has been (`Parser.watch_reportedUpTo`).

A message takes up one line. What it says of a token is the kind or the literal, and the only
literals that get into a message are those of numbers, which have digits and dots in them. So the
messages can be told apart when they have been joined into one text, a line for each.
-/

namespace MonkeySyntax

open MonkeySyntax.Scanner (Cursor)

namespace Diagnostic

/-! ### Reasons and places -/

/-- There is a reason for the diagnostic: the token is not of the kind that should have come, its
kind has no rule for an expression to begin with, or it is a number that cannot be converted. -/
def Justified : Diagnostic → Prop
  | expected kind t => kind ≠ t.kind
  | noExpression t => ∀ (expr : Nat → Parse Cursor Node) fuel,
    Parse.prefixRule expr fuel t.kind = none
  | badInteger t => t.kind = .int ∧ Numeral.value? t.literal = none

/-- Each diagnostic finds fault with a token of the list for a reason. The tokens come in the order
of the list, and none of them lies behind the given index. -/
def LocatedUpTo (ts : List Token) (k : Nat) (ds : List Diagnostic) : Prop :=
  ∃ is : List Nat, is.Pairwise (· ≤ ·) ∧ (∀ i ∈ is, i ≤ k) ∧
    List.Forall₂ (fun i d => ts[i]? = some d.token ∧ d.Justified) is ds

variable {ts : List Token} {k l : Nat} {ds : List Diagnostic}

theorem LocatedUpTo.mono (h : LocatedUpTo ts k ds) (hle : k ≤ l) : LocatedUpTo ts l ds := by
  obtain ⟨is, hsorted, hbound, hall⟩ := h
  exact ⟨is, hsorted, fun i hi => Nat.le_trans (hbound i hi) hle, hall⟩

/-- A diagnostic is added that is about the token at the bound. -/
theorem LocatedUpTo.concat (h : LocatedUpTo ts k ds) {d : Diagnostic}
    (hd : ts[k]? = some d.token) (hreason : d.Justified) : LocatedUpTo ts k (ds ++ [d]) := by
  obtain ⟨is, hsorted, hbound, hall⟩ := h
  refine ⟨is ++ [k], ?_, fun i hi => ?_, ?_⟩
  · rw [List.pairwise_append]
    refine ⟨hsorted, List.pairwise_singleton _ k, fun i hi j hj => ?_⟩
    rw [List.mem_singleton.1 hj]
    exact hbound i hi
  · rcases List.mem_append.1 hi with hi | hi
    · exact hbound i hi
    · exact Nat.le_of_eq (List.mem_singleton.1 hi)
  · exact List.rel_append hall (.cons ⟨hd, hreason⟩ .nil)

theorem LocatedUpTo.exists_index (h : LocatedUpTo ts k ds) {d : Diagnostic} (hd : d ∈ ds) :
    ∃ i : Nat, ts[i]? = some d.token ∧ d.Justified := by
  obtain ⟨is, -, -, hall⟩ := h
  obtain ⟨n, hn, rfl⟩ := List.getElem_of_mem hd
  have hn' : n < is.length := by rwa [hall.length_eq]
  exact ⟨is[n], hall.get hn' hn⟩

end Diagnostic

open Diagnostic (LocatedUpTo)

namespace Parser

/-- The parser comes from the text, and nothing has been reported behind the token with the given
index. -/
structure ReportedUpTo (source : String) (k : Nat) (p : Parser Cursor) : Prop where
  reachable : p.Reachable (Cursor.ofString source)
  located : LocatedUpTo (tokenize source) k p.diagnostics

variable {source : String} {k : Nat} {p : Parser Cursor}

theorem ReportedUpTo.report (h : p.ReportedUpTo source k) {d : Diagnostic}
    (hd : (tokenize source)[k]? = some d.token) (hreason : d.Justified) :
    (p.report d).ReportedUpTo source k :=
  ⟨h.reachable.report d, h.located.concat hd hreason⟩

/-- **Reports keep to the order.** Where the current token may be reported, nothing has been behind
it; and where only the next one may, nothing has been behind that. -/
theorem watch_reportedUpTo (source : String) :
    Watch (fun p => p.ReportedUpTo source (place (Cursor.ofString source) p))
      (fun p => p.ReportedUpTo source (place (Cursor.ofString source) p.advance)) where
  settle p h := ⟨h.reachable, h.located.mono ((kept_le_place _).advance p (Nat.le_refl _))⟩
  advance p h := ⟨h.reachable.advance, h.located⟩
  expected p kind h hk := h.report h.reachable.advance.getElem?_place (Ne.symm hk)
  noExpression p h hnone := by
    have hreport := h.report (d := .noExpression p.current) h.reachable.getElem?_place hnone
    exact ⟨hreport.reachable,
      hreport.located.mono ((kept_le_place _).advance p (Nat.le_refl _))⟩
  -- Behind a report of the current token, the next one may still be reported.
  badInteger p h hk hvalue := by
    have hreport := h.report (d := .badInteger p.current) h.reachable.getElem?_place ⟨hk, hvalue⟩
    exact ⟨hreport.reachable,
      hreport.located.mono ((kept_le_place _).advance p (Nat.le_refl _))⟩
  drop p h := ⟨h.reachable.drop, h.located⟩
  closeBlock p h := by
    refine ⟨h.reachable.closeBlock, ?_⟩
    rw [diagnostics_closeBlock]
    refine h.located.mono (Nat.le_of_eq ?_)
    rw [place, place, index_advance, index_advance, index_closeBlock]

end Parser

/-- The diagnostics of a text are in order. -/
theorem exists_locatedUpTo (source : String) :
    ∃ k, LocatedUpTo (tokenize source) k (parse source).diagnostics := by
  obtain ⟨body, q, hrun, -, heq⟩ := Reading.exists_run
    (Parser.genuine_ofStream (Cursor.ofString source)) (Parser.behind_ofStream _)
  have hW := Parser.watch_reportedUpTo source
  have hstart : (Parser.ofStream (Cursor.ofString source)).ReportedUpTo source
      (Parser.place (Cursor.ofString source) (Parser.ofStream (Cursor.ofString source))) :=
    ⟨.start, [], .nil, fun i hi => absurd hi List.not_mem_nil, .nil⟩
  have hends := Parse.statements_leads hW
    (Parse.expression_leads hW (Parser.ofStream (Cursor.ofString source)).fuel)
    (Parser.ofStream (Cursor.ofString source)).fuel Parse.endsProgram _ hstart
  rw [hrun] at hends
  have hlast : q.ReportedUpTo source (Parser.place (Cursor.ofString source) q.advance) := hends
  refine ⟨Parser.place (Cursor.ofString source) q.advance, ?_⟩
  rw [parse, Reading.ofString, Reading.ofStream, heq]
  exact hlast.located

/-! ### Messages in one line -/

theorem newline_notMem_append {s t : String} (hs : '\n' ∉ s.toList) (ht : '\n' ∉ t.toList) :
    '\n' ∉ (s ++ t).toList := by
  rw [String.toList_append, List.mem_append]
  exact fun h => h.elim hs ht

theorem newline_notMem_toString (n : Int) : '\n' ∉ (toString n).toList := by
  have hnat (m : Nat) : '\n' ∉ m.repr.toList := by
    intro h
    have hdigits : m.repr.toList = Nat.toDigits 10 m := String.toList_ofList
    rw [hdigits] at h
    exact absurd (Nat.isDigit_of_mem_toDigits (by decide) (by decide) h) (by decide)
  cases n with
  | ofNat m => exact hnat m
  | negSucc m => exact newline_notMem_append (s := "-") (by decide) (hnat (m + 1))

theorem newline_notMem_display (k : TokenKind) : '\n' ∉ k.display.toList := by
  cases k <;> decide

theorem newline_notMem_placeText (t : Token) : '\n' ∉ (Diagnostic.placeText t).toList := by
  have hline := newline_notMem_append (s := " at line ") (by decide)
    (newline_notMem_toString t.line)
  have hcol := newline_notMem_append hline (t := ", col ") (by decide)
  exact newline_notMem_append hcol (newline_notMem_toString t.col)

/-- What is quoted of a number has no line end in it. -/
theorem newline_notMem_literal {t : Token} (hk : t.kind = .int)
    (h : t.kind.HasLiteral t.literal) : '\n' ∉ t.literal.toList := by
  rw [hk] at h
  exact fun hmem => absurd (Numeral.isNumberChar_of_isRun h '\n' hmem) (by decide)

/-- **A message takes up one line.** -/
theorem newline_notMem_message {d : Diagnostic} (hreason : d.Justified)
    (h : d.token.kind = .int → d.token.kind.HasLiteral d.token.literal) :
    '\n' ∉ d.message.toList := by
  refine newline_notMem_append ?_ (newline_notMem_placeText d.token)
  -- What is not a fixed text is the name of a kind, or a number's literal.
  cases d with
  | expected kind t =>
    have hwish := newline_notMem_append (s := "expected next token to be ") (by decide)
      (newline_notMem_display kind)
    have hbut := newline_notMem_append hwish (t := ", but got ") (by decide)
    have hgot := newline_notMem_append hbut (newline_notMem_display t.kind)
    exact newline_notMem_append hgot (by decide)
  | noExpression t =>
    have hkind := newline_notMem_append (s := "no prefix parse function for ") (by decide)
      (newline_notMem_display t.kind)
    exact newline_notMem_append hkind (by decide)
  | badInteger t =>
    have hquoted := newline_notMem_append (s := "could not parse \"") (by decide)
      (newline_notMem_literal hreason.1 (h hreason.1))
    exact newline_notMem_append hquoted (by decide)

/-- The tokens before the end have literals that their kinds can have. -/
theorem hasLiteral_of_getElem? {source : String} {i : Nat} {t : Token}
    (h : (tokenize source)[i]? = some t) (hk : t.kind ≠ .eof) : t.kind.HasLiteral t.literal := by
  have hlt := (TokenStream.kind_ne_eof_iff h).1 hk
  have hmem : t ∈ (tokenize source).dropLast := by
    refine List.mem_of_getElem? (i := i) ?_
    rw [List.getElem?_dropLast, if_pos (by exact Nat.lt_sub_of_add_lt hlt)]
    exact h
  exact Token.lexical_iff.1 (lexical_of_mem_tokenize hmem)

/-! ### The three messages -/

/-- What can be wrong with a token. -/
inductive Fault where
  /-- Another token should have come. -/
  | unexpected
  /-- No expression begins with it. -/
  | beginsNothing
  /-- It is a number that cannot be converted. -/
  | outOfRange
  deriving DecidableEq

namespace Fault

/-- The text is the message that finds this fault with the token, and the fault is there. -/
def Says (t : Token) (text : String) : Fault → Prop
  | unexpected => ∃ wanted : TokenKind, wanted.display ≠ t.kind.display ∧
    text = "expected next token to be " ++ wanted.display ++ ", but got " ++ t.kind.display ++
      " instead" ++ (" at line " ++ toString t.line ++ ", col " ++ toString t.col)
  | beginsNothing =>
    (∀ (expr : Nat → Parse Cursor Node) fuel, Parse.prefixRule expr fuel t.kind = none) ∧
    text = "no prefix parse function for " ++ t.kind.display ++ " found" ++
      (" at line " ++ toString t.line ++ ", col " ++ toString t.col)
  | outOfRange => (t.kind = .int ∧ Numeral.value? t.literal = none) ∧
    text = "could not parse \"" ++ t.literal ++ "\" as integer" ++
      (" at line " ++ toString t.line ++ ", col " ++ toString t.col)

/-- The letter that the message begins with. -/
def initial : Fault → Char
  | unexpected => 'e'
  | beginsNothing => 'n'
  | outOfRange => 'c'

theorem initial_injective {f g : Fault} (h : f.initial = g.initial) : f = g := by
  cases f <;> cases g <;> first | rfl | exact absurd h (by decide)

theorem head?_append {s t : String} {c : Char} (h : s.toList.head? = some c) :
    (s ++ t).toList.head? = some c := by
  rw [String.toList_append, List.head?_append, h]
  rfl

theorem Says.head?_eq {t : Token} {text : String} {f : Fault} (h : f.Says t text) :
    text.toList.head? = some f.initial := by
  cases f with
  | unexpected =>
    obtain ⟨wanted, -, rfl⟩ := h
    have hfirst : "expected next token to be ".toList.head? = some 'e' := by decide
    exact head?_append (head?_append (head?_append (head?_append (head?_append hfirst))))
  | beginsNothing =>
    obtain ⟨-, rfl⟩ := h
    have hfirst : "no prefix parse function for ".toList.head? = some 'n' := by decide
    exact head?_append (head?_append (head?_append hfirst))
  | outOfRange =>
    obtain ⟨-, rfl⟩ := h
    have hfirst : "could not parse \"".toList.head? = some 'c' := by decide
    exact head?_append (head?_append (head?_append hfirst))

/-- The three messages differ from the first letter on. -/
theorem Says.unique {t : Token} {text : String} {f g : Fault} (hf : f.Says t text)
    (hg : g.Says t text) : f = g :=
  initial_injective (Option.some.inj (hf.head?_eq.symm.trans hg.head?_eq))

/-- The fault that a diagnostic finds. -/
theorem exists_says {d : Diagnostic} (h : d.Justified) : ∃ f : Fault, f.Says d.token d.message := by
  cases d with
  | expected kind t => exact ⟨unexpected, kind, fun heq => h (TokenKind.display_injective heq), rfl⟩
  | noExpression t => exact ⟨beginsNothing, h, rfl⟩
  | badInteger t => exact ⟨outOfRange, h, rfl⟩

end Fault

/-- The lines of a joined text. -/
theorem splitOn_joinMessages {messages : List String} (hne : messages ≠ [])
    (h : ∀ m ∈ messages, '\n' ∉ m.toList) :
    ((joinMessages messages).toList.splitOn '\n').map String.ofList = messages := by
  have hlines : ∀ cs ∈ messages.map String.toList, '\n' ∉ cs := by
    intro cs hcs
    obtain ⟨m, hm, rfl⟩ := List.mem_map.1 hcs
    exact h m hm
  have hsplit := List.splitOn_intercalate '\n' hlines (by simpa using hne)
  have htext : (joinMessages messages).toList =
      ['\n'].intercalate (messages.map String.toList) := String.toList_intercalate
  rw [htext, hsplit, List.map_map]
  exact (List.map_congr_left fun m _ => String.ofList_toList).trans (List.map_id messages)

/-- **Diagnostics name tokens of the text, in its order, one line each.** There are indices of
tokens, none smaller than the one before, such that each message finds exactly one of three faults
with the token that has its index, and the fault is there. No message has a line end in it, and if a
text is refused, the messages of the refusal can be got back from the lines of their joined text. -/
theorem messages_in_order (source : String) :
    (∃ is : List Nat, is.Pairwise (· ≤ ·) ∧
      List.Forall₂ (fun i text => ∃ t, (tokenize source)[i]? = some t ∧
        ∃! fault : Fault, fault.Says t text) is (parse source).messages) ∧
    (∀ text ∈ (parse source).messages, '\n' ∉ text.toList) ∧
    ∀ ds, parseStrict source = .error ds →
      ds.map Diagnostic.message = (parse source).messages ∧
      ((joinMessages (ds.map Diagnostic.message)).toList.splitOn '\n').map String.ofList =
        ds.map Diagnostic.message := by
  obtain ⟨k, hlocated⟩ := exists_locatedUpTo source
  have hline : ∀ text ∈ (parse source).messages, '\n' ∉ text.toList := by
    intro text htext
    obtain ⟨d, hd, rfl⟩ := List.mem_map.1 htext
    obtain ⟨i, hi, hreason⟩ := hlocated.exists_index hd
    refine newline_notMem_message hreason fun hk => hasLiteral_of_getElem? hi ?_
    rw [hk]
    decide
  refine ⟨?_, hline, fun ds hds => ?_⟩
  · -- The indices are those of the diagnostics, seen through their messages.
    obtain ⟨is, hsorted, -, hall⟩ := hlocated
    refine ⟨is, hsorted, ?_⟩
    refine List.forall₂_map_right_iff.2 (hall.imp fun i d hd => ?_)
    obtain ⟨fault, hfault⟩ := Fault.exists_says hd.2
    exact ⟨d.token, hd.1, fault, hfault, fun other hother => hother.unique hfault⟩
  · obtain ⟨rfl, hpos⟩ := (parseStrict_eq_error_iff source ds).1 hds
    refine ⟨rfl, splitOn_joinMessages ?_ hline⟩
    exact fun hnil => absurd (List.map_eq_nil_iff.1 hnil) (List.length_pos_iff.1 hpos)

/-- Two lines with a mistake in each. -/
def twoFaults : String := "let x 5;\nlet = 1;"

/-- The messages of a text that is refused. -/
theorem messages_in_order_twoFaults :
    parseStrict twoFaults =
        .error [.expected .assign ⟨.int, "5", 1, 7⟩, .expected .identifier ⟨.assign, "=", 2, 5⟩] ∧
      ((joinMessages ([.expected .assign ⟨.int, "5", 1, 7⟩,
          .expected .identifier ⟨.assign, "=", 2, 5⟩].map Diagnostic.message)).toList.splitOn
        '\n').map String.ofList =
      ["expected next token to be =, but got INT instead at line 1, col 7",
        "expected next token to be IDENTIFIER, but got = instead at line 2, col 5"] := by
  obtain ⟨-, -, hrefusal⟩ := messages_in_order twoFaults
  have hrefused : parseStrict twoFaults =
      .error [.expected .assign ⟨.int, "5", 1, 7⟩, .expected .identifier ⟨.assign, "=", 2, 5⟩] :=
    rfl
  have hlines := (hrefusal _ hrefused).2
  exact ⟨hrefused, hlines.trans (by decide)⟩

end MonkeySyntax
