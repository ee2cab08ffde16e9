import Mathlib.Data.List.TakeWhile
import MonkeySyntax.Proofs.Upcoming
import MonkeySyntax.Scanner.Scan

/-!
# Scanning a text that goes on

A scanner looks ahead by at most one character beyond what a token takes up, and a semicolon is no
part of a longer token. So if a text goes on behind a semicolon, the tokens before the semicolon are
those of the text alone (`Scanner.Cursor.toList_followedBy`), and from the next line on the scanner
does what it does at the start of a text, only further down (`Scanner.Cursor.Below.toList_eq`).

There is one exception. A string that is not closed takes all that follows it. Whether a text ends
inside such a string is said by following the scanner to it (`EndsInString`); as nothing but a quote
begins or ends a string, it can be told by counting quotes (`endsInString_iff`).
-/

namespace MonkeySyntax

open TokenStream (toList)

/-- The token `n` lines further down. -/
def Token.moveDown (n : Nat) (t : Token) : Token :=
  { t with line := t.line + n }

/-- Streams that yield the same token, and go on alike, hold the same tokens. -/
theorem TokenStream.toList_congr {σ : Type} [TokenStream σ] [LawfulTokenStream σ] {s s' : σ}
    (h : next s = next s') : toList s = toList s' := by
  by_cases he : (next s).1.kind = .eof
  · rw [toList_of_eof he, h]
    exact (toList_of_eof (h ▸ he)).symm
  · rw [toList_of_ne_eof he, h]
    exact (toList_of_ne_eof (h ▸ he)).symm

theorem TokenStream.toList_ne_nil {σ : Type} [TokenStream σ] [LawfulTokenStream σ] (s : σ) :
    toList s ≠ [] := by
  obtain ⟨ts, e, h, -⟩ := exists_toList_eq s
  simp [h]

namespace Scanner

/-! ### Lexemes in a longer text -/

/-- A run of characters ends where it ends, whatever comes later. -/
theorem takeWhile_append_of_stops {p : Char → Bool} {xs ys : List Char} {d : Char}
    (h : p d = false ∨ ∃ x ∈ xs, p x = false) :
    (xs ++ d :: ys).takeWhile p = xs.takeWhile p := by
  induction xs with
  | nil =>
    have hd : p d = false := by simpa using h
    simp [hd]
  | cons x xs ih =>
    rw [List.cons_append, List.takeWhile_cons, List.takeWhile_cons]
    cases hx : p x with
    | false => rfl
    | true =>
      have h : p d = false ∨ ∃ x ∈ xs, p x = false := by simpa [hx] using h
      rw [if_pos rfl, if_pos rfl, ih h]

namespace Lexeme

variable {c : Char} {rest : List Char}

/-- A semicolon further on does not change a lexeme, unless this is a string that is not closed. -/
theorem ofChars_append (h : c = '\x22' → '\x22' ∈ rest) (y : List Char) :
    ofChars c (rest ++ ';' :: y) = ofChars c rest := by
  have hword : (rest ++ ';' :: y).takeWhile isWordChar = rest.takeWhile isWordChar :=
    takeWhile_append_of_stops (.inl rfl)
  have hnumber : (rest ++ ';' :: y).takeWhile isNumberChar = rest.takeWhile isNumberChar :=
    takeWhile_append_of_stops (.inl rfl)
  have hnext : (rest ++ ';' :: y).head? = some '=' ↔ rest.head? = some '=' := by
    cases rest <;> simp
  -- A semicolon may stand in a string, and it is the quote that ends it.
  have hstring : c = '\x22' → stringBody (rest ++ ';' :: y) = stringBody rest := fun hc =>
    takeWhile_append_of_stops (.inr ⟨'\x22', h hc, rfl⟩)
  simp only [ofChars, hword, hnumber, hnext]
  by_cases hc : c = '\x22'
  · rw [hstring hc]
  · simp only [if_neg hc]

/-- An operator of two characters is all there. -/
theorem two_le_of_next (h : rest.head? = some '=') : 2 ≤ rest.length + 1 := by
  have hne : rest ≠ [] := fun hnil => by simp [hnil] at h
  have hpos := List.length_pos_iff.2 hne
  omega

/-- A lexeme takes up no more than there is. -/
theorem width_le (h : c = '\x22' → '\x22' ∈ rest) : (ofChars c rest).width ≤ rest.length + 1 := by
  have hrun (p : Char → Bool) : (rest.takeWhile p).length ≤ rest.length :=
    (List.takeWhile_prefix p).length_le
  unfold ofChars
  split
  · simpa [word] using hrun isWordChar
  split
  · simpa using hrun isNumberChar
  split
  · next hnext =>
    exact two_le_of_next hnext.2
  split
  · next hnext =>
    exact two_le_of_next hnext.2
  split
  · simp
  split
  · next hc =>
    -- The body of the string stops at the quote, which is still to come.
    have hlt : (stringBody rest).length < rest.length := by
      have hle := hrun (· ≠ '\x22')
      refine Nat.lt_of_le_of_ne hle fun heq => ?_
      have hall : rest.takeWhile (· ≠ '\x22') = rest :=
        (List.takeWhile_prefix _).eq_of_length heq
      rw [List.takeWhile_eq_self_iff] at hall
      simpa using hall _ (h hc)
    change (stringBody rest).length + 2 ≤ rest.length + 1
    omega
  · simp

theorem quote_notMem_run {p : Char → Bool} (hp : p '\x22' = false) :
    '\x22' ∉ rest.take (rest.takeWhile p).length := by
  rw [← List.prefix_iff_eq_take.1 (List.takeWhile_prefix p)]
  intro hmem
  have hquote : p '\x22' = true := List.mem_takeWhile_imp hmem
  exact absurd (hp.symm.trans hquote) (by decide)

/-- Only a string takes up quotes. -/
theorem quote_notMem_take (h : c ≠ '\x22') :
    '\x22' ∉ (c :: rest).take (ofChars c rest).width := by
  have hone : '\x22' ∉ (c :: rest).take 1 := by simpa using h.symm
  have htwo (hnext : rest.head? = some '=') : '\x22' ∉ (c :: rest).take 2 := by
    cases rest with
    | nil => simp at hnext
    | cons d rest =>
      obtain rfl : d = '=' := Option.some.inj hnext
      simpa using h.symm
  have hmore {k : Nat} (hk : '\x22' ∉ rest.take k) : '\x22' ∉ (c :: rest).take (k + 1) := by
    simpa using ⟨h.symm, hk⟩
  unfold ofChars
  split
  · exact hmore (quote_notMem_run rfl)
  split
  · exact hmore (quote_notMem_run rfl)
  split
  · next hnext => exact htwo hnext.2
  split
  · next hnext => exact htwo hnext.2
  split
  · exact hone
  -- The quote has been excluded already.
  · exact hone

/-- Lexemes take up quotes in pairs, as long as strings are closed. -/
theorem even_quotes (h : c = '\x22' → '\x22' ∈ rest) :
    ((c :: rest).take (ofChars c rest).width).count '\x22' % 2 = 0 := by
  by_cases hc : c = '\x22'
  · -- A closed string takes up its two quotes and none in between.
    obtain ⟨body, after, rfl, hbody⟩ := List.eq_append_cons_of_mem (h hc)
    have hstring : stringBody (body ++ '\x22' :: after) = body := by
      rw [stringBody, takeWhile_append_of_stops (.inl rfl), List.takeWhile_eq_self_iff]
      intro d hd
      have hne : d ≠ '\x22' := fun heq => hbody (heq ▸ hd)
      simpa using hne
    have hwidth : (ofChars '\x22' (body ++ '\x22' :: after)).width = body.length + 2 := by
      change (stringBody (body ++ '\x22' :: after)).length + 2 = _
      rw [hstring]
    have hnone : body.count '\x22' = 0 := List.count_eq_zero_of_not_mem hbody
    rw [hc, hwidth, List.take_succ_cons, List.take_append, List.take_of_length_le (by omega)]
    simp [hnone]
  · rw [List.count_eq_zero_of_not_mem (quote_notMem_take hc)]

end Lexeme

namespace Cursor

variable {c d : Cursor} {n : Nat}

/-! ### Token by token -/

/-- Nothing is left but spaces. -/
theorem toList_of_nil (h : c.skipSpaces.rest = []) :
    toList c = [⟨.eof, "", c.skipSpaces.line, c.skipSpaces.column⟩] := by
  have hnext : TokenStream.next c = (⟨.eof, "", c.skipSpaces.line, c.skipSpaces.column⟩,
      c.skipSpaces) := tokenHere_of_nil h
  rw [TokenStream.toList_of_eof (by rw [hnext]), hnext]

theorem toList_of_cons {ch : Char} {rest : List Char} (h : c.skipSpaces.rest = ch :: rest) :
    toList c =
      ⟨(Lexeme.ofChars ch rest).kind, String.ofList (Lexeme.ofChars ch rest).literal,
        c.skipSpaces.line, c.skipSpaces.column⟩ ::
      toList (c.skipSpaces.advanceBy (Lexeme.ofChars ch rest).width) := by
  have hnext := tokenHere_of_cons h
  have hne : (TokenStream.next c).1.kind ≠ .eof := by
    change c.skipSpaces.tokenHere.1.kind ≠ .eof
    rw [hnext]
    exact Lexeme.kind_ofChars_ne_eof ch rest
  rw [TokenStream.toList_of_ne_eof hne]
  change c.skipSpaces.tokenHere.1 :: toList c.skipSpaces.tokenHere.2 = _
  rw [hnext]

/-- **Induction along the tokens of a text.** -/
theorem scan_induction {P : Cursor → Prop} (atEnd : ∀ c : Cursor, c.skipSpaces.rest = [] → P c)
    (token : ∀ (c : Cursor) (ch : Char) (rest : List Char), c.skipSpaces.rest = ch :: rest →
      P (c.skipSpaces.advanceBy (Lexeme.ofChars ch rest).width) → P c) (c : Cursor) : P c := by
  induction hn : c.rest.length using Nat.strongRecOn generalizing c with
  | _ n ih =>
    subst hn
    cases hr : c.skipSpaces.rest with
    | nil => exact atEnd c hr
    | cons ch rest =>
      refine token c ch rest hr (ih _ ?_ _ rfl)
      have hle := c.length_rest_skipSpaces_le
      have hpos := Lexeme.width_pos ch rest
      rw [hr, List.length_cons] at hle
      rw [rest_advanceBy, hr, List.length_drop, List.length_cons]
      omega

/-! ### A text that goes on -/

/-- The cursor in a text that goes on with `z`. -/
def followedBy (c : Cursor) (z : List Char) : Cursor :=
  { c with rest := c.rest ++ z, current? := (c.rest ++ z).head? }

/-- The cursor at the end of its text. -/
def textEnd (c : Cursor) : Cursor :=
  c.advanceBy c.rest.length

variable {y z : List Char}

@[simp] theorem rest_followedBy : (c.followedBy z).rest = c.rest ++ z := rfl

@[simp] theorem rest_textEnd : c.textEnd.rest = [] := by
  rw [textEnd, rest_advanceBy, List.drop_length]

theorem textEnd_of_nil (h : c.rest = []) : c.textEnd = c :=
  advanceBy_of_rest_nil h _

theorem textEnd_advanceBy (n : Nat) (c : Cursor) : (c.advanceBy n).textEnd = c.textEnd := by
  rw [textEnd, textEnd, ← advanceBy_add, rest_advanceBy, List.length_drop]
  rcases Nat.le_total n c.rest.length with h | h
  · rw [Nat.add_sub_cancel' h]
  · -- Steps beyond the end change nothing.
    obtain ⟨k, rfl⟩ := Nat.exists_eq_add_of_le h
    have hend : (c.advanceBy c.rest.length).rest = [] := rest_textEnd
    rw [Nat.sub_eq_zero_of_le h, Nat.add_zero, advanceBy_add, advanceBy_of_rest_nil hend]

theorem textEnd_skipSpaces (c : Cursor) : c.skipSpaces.textEnd = c.textEnd :=
  textEnd_advanceBy _ c

theorem advance_followedBy (h : c.rest ≠ []) :
    (c.followedBy z).advance = c.advance.followedBy z := by
  obtain ⟨ch, rest, hr⟩ := List.exists_cons_of_ne_nil h
  simp [advance, followedBy, hr]

theorem advanceBy_followedBy (h : n ≤ c.rest.length) :
    (c.followedBy z).advanceBy n = (c.advanceBy n).followedBy z := by
  induction n generalizing c with
  | zero => rfl
  | succ n ih =>
    have hne : c.rest ≠ [] := List.length_pos_iff.1 (Nat.lt_of_lt_of_le (Nat.succ_pos n) h)
    have hle : n ≤ c.advance.rest.length := by
      rw [rest_advance, List.length_tail]
      omega
    rw [advanceBy_succ, advance_followedBy hne, ih hle, advanceBy_succ]

theorem skipSpaces_followedBy :
    (c.followedBy (';' :: y)).skipSpaces = c.skipSpaces.followedBy (';' :: y) := by
  have hrun : (c.followedBy (';' :: y)).run isSpace = c.run isSpace :=
    takeWhile_append_of_stops (.inl rfl)
  have hle : (c.run isSpace).length ≤ c.rest.length := (List.takeWhile_prefix _).length_le
  rw [skipSpaces, skipWhile, hrun, advanceBy_followedBy hle]
  rfl

/-- What comes next is a string that is not closed. -/
def OpensString (c : Cursor) : Prop :=
  ∃ rest, c.skipSpaces.rest = '\x22' :: rest ∧ '\x22' ∉ rest

/-- The cursor behind the next `n` tokens. -/
def afterTokens : (n : Nat) → Cursor → Cursor
  | 0, c => c
  | n + 1, c => afterTokens n c.nextToken.2

/-- The text ends inside a string that is not closed. -/
def EndsInString (c : Cursor) : Prop :=
  ∃ n, (c.afterTokens n).OpensString

theorem endsInString_iff_or : c.EndsInString ↔ c.OpensString ∨ c.nextToken.2.EndsInString := by
  constructor
  · rintro ⟨n, h⟩
    cases n with
    | zero => exact .inl h
    | succ n => exact .inr ⟨n, h⟩
  · rintro (h | ⟨n, h⟩)
    · exact ⟨0, h⟩
    · exact ⟨n + 1, h⟩

/-- **A text that goes on behind a semicolon.** Its tokens are those of the text itself, up to where
this ends, and what the scanner finds from there on. -/
theorem toList_followedBy (c : Cursor) (h : ¬ c.EndsInString) (y : List Char) :
    toList (c.followedBy (';' :: y)) =
      (toList c).dropLast ++ toList (c.textEnd.followedBy (';' :: y)) := by
  induction c using scan_induction with
  | atEnd c hr =>
    have hend : c.skipSpaces = c.textEnd := by rw [← textEnd_skipSpaces, textEnd_of_nil hr]
    rw [toList_of_nil hr, ← hend]
    -- The spaces before the semicolon are skipped with the next token.
    refine TokenStream.toList_congr ?_
    change tokenHere _ = tokenHere _
    rw [skipSpaces_followedBy, skipSpaces_followedBy, skipSpaces_of_nil hr]
  | token c ch rest hr ih =>
    have hnext : c.nextToken.2 = c.skipSpaces.advanceBy (Lexeme.ofChars ch rest).width := by
      rw [nextToken, tokenHere_of_cons hr]
    -- Neither the next token nor a later one is a string that is not closed.
    have hclosed : ch = '\x22' → '\x22' ∈ rest := by
      rintro rfl
      by_contra hopen
      exact h (endsInString_iff_or.2 (.inl ⟨rest, hr, hopen⟩))
    have hbehind : ¬ (c.skipSpaces.advanceBy (Lexeme.ofChars ch rest).width).EndsInString :=
      fun hb => h (endsInString_iff_or.2 (.inr (hnext ▸ hb)))
    have hr' : (c.followedBy (';' :: y)).skipSpaces.rest = ch :: (rest ++ ';' :: y) := by
      rw [skipSpaces_followedBy, rest_followedBy, hr, List.cons_append]
    have hwidth : (Lexeme.ofChars ch rest).width ≤ c.skipSpaces.rest.length := by
      rw [hr, List.length_cons]
      exact Lexeme.width_le hclosed
    rw [toList_of_cons hr', toList_of_cons hr, Lexeme.ofChars_append hclosed, skipSpaces_followedBy,
      advanceBy_followedBy hwidth, ih hbehind, textEnd_advanceBy, textEnd_skipSpaces,
      List.dropLast_cons_of_ne_nil (TokenStream.toList_ne_nil _)]
    rfl

/-! ### Quotes -/

theorem quotes_skipSpaces (c : Cursor) :
    c.skipSpaces.rest.count '\x22' = c.rest.count '\x22' := by
  have hsplit : c.rest.takeWhile isSpace ++ c.skipSpaces.rest = c.rest := by
    rw [skipSpaces, rest_skipWhile, List.takeWhile_append_dropWhile]
  have hspaces : '\x22' ∉ c.rest.takeWhile isSpace := fun hmem =>
    absurd (List.mem_takeWhile_imp hmem) (by decide)
  rw [← congrArg (List.count '\x22') hsplit, List.count_append,
    List.count_eq_zero_of_not_mem hspaces, Nat.zero_add]

theorem not_endsInString_of_nil (h : c.skipSpaces.rest = []) : ¬ c.EndsInString := by
  rintro ⟨n, hn⟩
  induction n generalizing c with
  | zero =>
    obtain ⟨rest, hr, -⟩ := hn
    simp [afterTokens, h] at hr
  | succ n ih =>
    have hnext : c.nextToken.2 = c.skipSpaces := by rw [nextToken, tokenHere_of_nil h]
    refine ih (c := c.nextToken.2) ?_ hn
    rw [hnext, skipSpaces_of_nil h, h]

/-- **Counting quotes** tells whether a text ends inside a string. -/
theorem endsInString_iff_quotes (c : Cursor) :
    c.EndsInString ↔ c.rest.count '\x22' % 2 = 1 := by
  induction c using scan_induction with
  | atEnd c hr =>
    have hcount : c.rest.count '\x22' = 0 := by rw [← quotes_skipSpaces, hr, List.count_nil]
    simp [hcount, not_endsInString_of_nil hr]
  | token c ch rest hr ih =>
    have hnext : c.nextToken.2 = c.skipSpaces.advanceBy (Lexeme.ofChars ch rest).width := by
      rw [nextToken, tokenHere_of_cons hr]
    rw [← quotes_skipSpaces, hr]
    by_cases hopen : ch = '\x22' ∧ '\x22' ∉ rest
    · -- This is the string, and its quote the last one.
      obtain ⟨rfl, hrest⟩ := hopen
      have hcount : List.count '\x22' ('\x22' :: rest) = 1 := by
        rw [List.count_cons_self, List.count_eq_zero_of_not_mem hrest]
      rw [hcount]
      exact iff_of_true (endsInString_iff_or.2 (.inl ⟨rest, hr, hrest⟩)) rfl
    · have hclosed : ch = '\x22' → '\x22' ∈ rest := fun hch =>
        by_contra fun hrest => hopen ⟨hch, hrest⟩
      have hnone : ¬ c.OpensString := by
        rintro ⟨rest', hr', hrest⟩
        obtain ⟨rfl, rfl⟩ := List.cons.inj (hr.symm.trans hr')
        exact hopen ⟨rfl, hrest⟩
      -- The next token takes up quotes in pairs, so the rest decides.
      have heven := Lexeme.even_quotes hclosed
      have hsplit := List.take_append_drop (Lexeme.ofChars ch rest).width (ch :: rest)
      have hcount := congrArg (List.count '\x22') hsplit
      rw [List.count_append] at hcount
      rw [endsInString_iff_or, or_iff_right hnone, hnext, ih, rest_advanceBy, hr]
      omega

/-! ### Lines -/

theorem line_advance (c : Cursor) :
    c.advance.line + c.advance.rest.count '\n' = c.line + c.rest.count '\n' := by
  cases hr : c.rest with
  | nil => rw [advance_of_rest_nil hr, hr]
  | cons ch rest =>
    by_cases hch : ch = '\n'
    · subst hch
      simp [advance, hr]
      omega
    · simp [advance, hr, hch]

theorem line_advanceBy (n : Nat) (c : Cursor) :
    (c.advanceBy n).line + (c.advanceBy n).rest.count '\n' = c.line + c.rest.count '\n' := by
  induction n generalizing c with
  | zero => rfl
  | succ n ih => rw [advanceBy_succ, ih, line_advance]

theorem line_textEnd (c : Cursor) : c.textEnd.line = c.line + c.rest.count '\n' := by
  have h := line_advanceBy c.rest.length c
  rwa [← textEnd, rest_textEnd, List.count_nil, Nat.add_zero] at h

/-- The two cursors have the same text ahead and stand in the same column, the first one `n` lines
further down. -/
structure Below (n : Nat) (c d : Cursor) : Prop where
  rest_eq : c.rest = d.rest
  line_eq : c.line = d.line + n
  column_eq : c.column = d.column

theorem Below.advance (h : Below n c d) : Below n c.advance d.advance := by
  obtain ⟨hr, hl, hc⟩ := h
  cases hd : d.rest with
  | nil =>
    rw [advance_of_rest_nil (hr.trans hd), advance_of_rest_nil hd]
    exact ⟨hr, hl, hc⟩
  | cons ch rest =>
    rw [hd] at hr
    refine ⟨by rw [rest_advance, rest_advance, hr, hd], ?_, ?_⟩
    · by_cases hch : ch = '\n'
      · simp [Cursor.advance, hr, hd, hch, hl]
        omega
      · simp [Cursor.advance, hr, hd, hch, hl]
    · simp [Cursor.advance, hr, hd, hc]

theorem Below.advanceBy (h : Below n c d) (k : Nat) :
    Below n (c.advanceBy k) (d.advanceBy k) := by
  induction k generalizing c d with
  | zero => exact h
  | succ k ih => exact ih h.advance

theorem Below.skipSpaces (h : Below n c d) : Below n c.skipSpaces d.skipSpaces := by
  have hrun : c.run isSpace = d.run isSpace := congrArg (List.takeWhile isSpace) h.rest_eq
  rw [Cursor.skipSpaces, skipWhile, hrun]
  exact h.advanceBy _

/-- **Scanning further down** finds the same tokens further down. -/
theorem Below.toList_eq (h : Below n c d) : toList c = (toList d).map (Token.moveDown n) := by
  induction d using scan_induction generalizing c with
  | atEnd d hr =>
    have hs := h.skipSpaces
    rw [toList_of_nil (hs.rest_eq.trans hr), toList_of_nil hr, hs.line_eq, hs.column_eq]
    rfl
  | token d ch rest hr ih =>
    have hs := h.skipSpaces
    rw [toList_of_cons (hs.rest_eq.trans hr), toList_of_cons hr, hs.line_eq, hs.column_eq,
      ih (hs.advanceBy _)]
    rfl

/-! ### The semicolon and the next line -/

/-- The semicolon right behind a text. -/
def separator (c : Cursor) : Token :=
  ⟨.semicolon, ";", c.textEnd.line, c.textEnd.column⟩

/-- The cursor behind that semicolon, in a text that goes on with `y`. -/
def behindSeparator (c : Cursor) (y : List Char) : Cursor :=
  (c.textEnd.followedBy (';' :: y)).advance

theorem toList_textEnd (c : Cursor) (y : List Char) :
    toList (c.textEnd.followedBy (';' :: y)) = c.separator :: toList (c.behindSeparator y) := by
  have hr : (c.textEnd.followedBy (';' :: y)).rest = ';' :: y := by
    rw [rest_followedBy, rest_textEnd, List.nil_append]
  have hspaces : (c.textEnd.followedBy (';' :: y)).skipSpaces =
      c.textEnd.followedBy (';' :: y) := by
    rw [skipSpaces_followedBy, skipSpaces_of_nil rest_textEnd]
  have hlexeme : Lexeme.ofChars ';' y = .plain .semicolon [';'] := rfl
  rw [toList_of_cons (hspaces ▸ hr), hspaces, hlexeme]
  rfl

theorem skipSpaces_of_cons {ch : Char} {rest : List Char} (h : c.rest = ch :: rest)
    (hs : isSpace ch = true) : c.skipSpaces = c.advance.skipSpaces := by
  have hrun : c.run isSpace = ch :: c.advance.run isSpace := by
    rw [run, run, rest_advance, h, List.takeWhile_cons, if_pos hs, List.tail_cons]
  rw [skipSpaces, skipWhile, hrun]
  rfl

/-- **On the next line** the scanner goes on as it would at the start of a text. -/
theorem toList_behindSeparator_newline (c : Cursor) (source : String) :
    toList (c.behindSeparator ('\n' :: source.toList)) =
      (toList (ofString source)).map (Token.moveDown (c.line + c.rest.count '\n')) := by
  have hr : (c.behindSeparator ('\n' :: source.toList)).rest = '\n' :: source.toList := by
    rw [behindSeparator, rest_advance, rest_followedBy, rest_textEnd]
    rfl
  have hbelow : Below (c.line + c.rest.count '\n')
      (c.behindSeparator ('\n' :: source.toList)).advance (ofString source) := by
    refine ⟨by rw [rest_advance, hr]; rfl, ?_, ?_⟩
    · rw [← line_textEnd]
      simp [behindSeparator, advance, followedBy, ofString]
      omega
    · simp [behindSeparator, advance, followedBy, ofString]
  rw [← hbelow.toList_eq]
  -- The newline is skipped as a space.
  refine TokenStream.toList_congr ?_
  change tokenHere _ = tokenHere _
  rw [skipSpaces_of_cons hr rfl]

end Cursor

end Scanner

/-! ### Texts -/

/-- The text ends inside a string that is not closed. -/
def EndsInString (source : String) : Prop :=
  (Scanner.Cursor.ofString source).EndsInString

/-- **A text ends inside a string** exactly if it has an odd number of quotes. -/
theorem endsInString_iff (source : String) :
    EndsInString source ↔ source.toList.count '\x22' % 2 = 1 :=
  Scanner.Cursor.endsInString_iff_quotes _

instance (source : String) : Decidable (EndsInString source) :=
  decidable_of_iff' _ (endsInString_iff source)

/-- The semicolon right behind a text. -/
def separator (source : String) : Token :=
  (Scanner.Cursor.ofString source).separator

open Scanner in
/-- **A semicolon behind a text** adds its token, and moves the end. -/
theorem tokenize_semicolon {source : String} (h : ¬ EndsInString source) :
    ∃ e, tokenize (source ++ ";") = (tokenize source).dropLast ++ [separator source, e] := by
  have hsource : Cursor.ofString (source ++ ";") = (Cursor.ofString source).followedBy [';'] := by
    rw [Cursor.ofString, String.toList_append]
    rfl
  -- Behind the semicolon nothing is left.
  have hend : ((Cursor.ofString source).behindSeparator []).skipSpaces.rest = [] := by
    have hnil : ((Cursor.ofString source).behindSeparator []).rest = [] := by
      rw [Cursor.behindSeparator, Cursor.rest_advance, Cursor.rest_followedBy,
        Cursor.rest_textEnd]
      rfl
    rw [Cursor.skipSpaces_of_nil hnil, hnil]
  have hlist := Cursor.toList_followedBy _ h []
  rw [Cursor.toList_textEnd, Cursor.toList_of_nil hend, ← hsource] at hlist
  exact ⟨_, hlist⟩

open Scanner in
/-- **A text on the lines below** another one, which ends with a semicolon. -/
theorem tokenize_semicolon_newline {source : String} (h : ¬ EndsInString source) (next : String) :
    tokenize (source ++ ";\n" ++ next) =
      (tokenize source).dropLast ++ separator source ::
        (tokenize next).map (Token.moveDown (1 + source.toList.count '\n')) := by
  have hsource : Cursor.ofString (source ++ ";\n" ++ next) =
      (Cursor.ofString source).followedBy (';' :: '\n' :: next.toList) := by
    rw [Cursor.ofString, String.toList_append, String.toList_append, List.append_assoc]
    rfl
  rw [tokenize, hsource, Cursor.toList_followedBy _ h, Cursor.toList_textEnd,
    Cursor.toList_behindSeparator_newline]
  rfl

end MonkeySyntax
