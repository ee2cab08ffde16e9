import MonkeySyntax.Proofs.Printing

/-!
# A text is made of its tokens

Nothing of a text is lost when it is scanned. The text can be put together again from its tokens:
what stands before a token is blank, and then comes the token as it is printed; only a string that
runs to the end of the text has no closing quote. Each literal is one that its
kind can have (`TokenKind.HasLiteral`), each token is as long as it can be, and its line and column
are those of the place where it begins.

The last part is an invariant of the cursor. It never looks back at what it has passed, but counts
lines and columns as it goes; `Scanner.Cursor.HasPassed` says that the counts are right, and one
step keeps it so.
-/

namespace MonkeySyntax

open TokenStream (toList)

/-! ### Kinds and literals -/

namespace Scanner

/-- The characters begin with one of the class `first`, and all others are of the class `next`. -/
def IsRun (first next : Char → Bool) : List Char → Prop
  | [] => False
  | c :: cs => first c = true ∧ ∀ d ∈ cs, next d = true

instance (first next : Char → Bool) : ∀ cs, Decidable (IsRun first next cs)
  | [] => inferInstanceAs (Decidable False)
  | c :: cs =>
    -- Named, so that no search finds the way over all characters that there are.
    have : Decidable (∀ d ∈ cs, next d = true) := List.decidableBAll _ cs
    inferInstanceAs (Decidable (first c = true ∧ ∀ d ∈ cs, next d = true))

/-- The character is skipped, or begins some token other than an illegal one. -/
def isKnown (c : Char) : Bool :=
  isSpace c || isLetter c || isDigit c || (TokenKind.ofSymbol? c).isSome || c == '\x22'

theorem isKnown_eq_false_iff {c : Char} :
    isKnown c = false ↔ isSpace c = false ∧ isLetter c = false ∧ isDigit c = false ∧
      TokenKind.ofSymbol? c = none ∧ c ≠ '\x22' := by
  simp [isKnown, and_assoc]

end Scanner

namespace TokenKind

/-- The kinds of words: identifiers and the reserved words. -/
def isWord : TokenKind → Bool
  | identifier | functionKeyword | letKeyword | trueKeyword | falseKeyword | ifKeyword | elseKeyword
  | returnKeyword => true
  | _ => false

open Scanner in
/-- The kind fits the literal. A word has the kind that the table of reserved words gives it; a
number is a digit and then digits and dots; a string has no quote in it; an illegal token is a
single character that begins nothing else; and every other kind has one literal. -/
def HasLiteral (k : TokenKind) (literal : String) : Prop :=
  match k with
  | eof => False
  | identifier | functionKeyword | letKeyword | trueKeyword | falseKeyword | ifKeyword | elseKeyword
  | returnKeyword => IsRun isLetter isWordChar literal.toList ∧ ofWord literal = k
  | int => IsRun isDigit isNumberChar literal.toList
  | string => '\x22' ∉ literal.toList
  | illegal => ∃ c, literal.toList = [c] ∧ isKnown c = false
  | k => literal = k.display

theorem isWord_ofWord (word : String) : (ofWord word).isWord = true := by
  have hk : ∀ entry ∈ keywords, entry.2.isWord = true := by decide
  cases ofWord_eq word with
  | inl h => exact hk _ h
  | inr h => rw [h]; rfl

open Scanner in
theorem hasLiteral_of_isWord {k : TokenKind} (h : k.isWord = true) (literal : String) :
    k.HasLiteral literal ↔ IsRun isLetter isWordChar literal.toList ∧ ofWord literal = k := by
  cases k <;> first | exact Iff.rfl | exact absurd h (by decide)

/-- An operator or a delimiter of one character has this character as its literal. -/
theorem hasLiteral_of_mem_symbols {c : Char} {k : TokenKind} (h : (c, k) ∈ symbols) :
    k.HasLiteral (String.ofList [c]) := by
  have hsymbols : ∀ entry ∈ symbols, entry.2.HasLiteral (String.ofList [entry.1]) := by
    simp [symbols, HasLiteral, display]
  exact hsymbols _ h

end TokenKind

namespace Scanner.Lexeme

variable {c : Char} {rest : List Char}

theorem isRun_takeWhile {first next : Char → Bool} (h : first c = true) :
    IsRun first next (c :: rest.takeWhile next) :=
  ⟨h, all_takeWhile⟩

/-- The kind of a lexeme fits its literal. -/
theorem hasLiteral_ofChars (hs : isSpace c = false) :
    (ofChars c rest).kind.HasLiteral (String.ofList (ofChars c rest).literal) := by
  have hshape := shape_ofChars c rest
  generalize ofChars c rest = l at hshape ⊢
  cases hshape with
  | word hletter =>
    apply (TokenKind.hasLiteral_of_isWord (TokenKind.isWord_ofWord _) _).2
    rw [String.toList_ofList]
    exact ⟨isRun_takeWhile hletter, rfl⟩
  | number _ hdigit =>
    show IsRun isDigit isNumberChar (String.ofList _).toList
    rw [String.toList_ofList]
    exact isRun_takeWhile hdigit
  | equal => rfl
  | notEqual => rfl
  | symbol _ _ _ hkind => exact TokenKind.hasLiteral_of_mem_symbols (TokenKind.mem_symbols hkind)
  | string =>
    show '\x22' ∉ (String.ofList (stringBody rest)).toList
    rw [String.toList_ofList]
    intro hmem
    exact absurd (all_takeWhile _ hmem) (by decide)
  | illegal hletter hdigit hsymbol hquote =>
    exact ⟨c, String.toList_ofList, isKnown_eq_false_iff.2 ⟨hs, hletter, hdigit, hsymbol, hquote⟩⟩

end Scanner.Lexeme

namespace Scanner

theorem IsRun.exists_cons {first next : Char → Bool} {cs : List Char} (h : IsRun first next cs) :
    ∃ d ds, cs = d :: ds ∧ first d = true ∧ ∀ e ∈ ds, next e = true := by
  cases cs with
  | nil => exact h.elim
  | cons d ds => exact ⟨d, ds, rfl, h.1, h.2⟩

/-- Blanks are in no class that a token goes on with. -/
theorem isSpace_eq_false_of_takes {c : Char} (k : TokenKind) (h : k.takes c = true) :
    isSpace c = false := by
  cases hs : isSpace c with
  | false => rfl
  | true =>
    rw [TokenKind.takes_of_isSpace hs] at h
    cases h

theorem isWordChar_of_isLetter {c : Char} (h : isLetter c = true) : isWordChar c = true := by
  rw [isWordChar, h, Bool.true_or]

theorem isNumberChar_of_isDigit {c : Char} (h : isDigit c = true) : isNumberChar c = true := by
  rw [isNumberChar, h, Bool.true_or]

theorem isLetter_eq_false_of_isDigit {c : Char} (h : isDigit c = true) : isLetter c = false := by
  have hle : c ≤ '9' := by
    rw [isDigit, Bool.and_eq_true, decide_eq_true_eq, decide_eq_true_eq] at h
    exact h.2
  -- The digits come before all letters and before the underscore.
  have hupper : ¬ 'A' ≤ c := fun hge => absurd (Std.le_trans hge hle) (by decide)
  have hlower : ¬ 'a' ≤ c := fun hge => absurd (Std.le_trans hge hle) (by decide)
  have hunderscore : c ≠ '_' := by
    rintro rfl
    exact absurd hle (by decide)
  simp [isLetter, hupper, hlower, hunderscore]

end Scanner

namespace Token

open Scanner

theorem lexical_of_word {t : Token} (hrun : IsRun isLetter isWordChar t.literal.toList)
    (hk : TokenKind.ofWord t.literal = t.kind) : t.Lexical := by
  obtain ⟨c, cs, hcs, hletter, hall⟩ := hrun.exists_cons
  have hlexeme : Lexeme.ofChars c cs = Lexeme.word t.literal.toList := by
    rw [Lexeme.ofChars, if_pos hletter, List.takeWhile_eq_self_iff.2 hall, hcs]
  refine ⟨c, cs, isSpace_eq_false_of_takes .identifier (isWordChar_of_isLetter hletter), ?_, ?_⟩
  · rw [hlexeme, ← hk]
    exact congrArg TokenKind.ofWord String.ofList_toList
  · rw [hlexeme]
    rfl

theorem lexical_of_number {t : Token} (hrun : IsRun isDigit isNumberChar t.literal.toList)
    (hk : t.kind = .int) : t.Lexical := by
  obtain ⟨c, cs, hcs, hdigit, hall⟩ := hrun.exists_cons
  have hlexeme : Lexeme.ofChars c cs = Lexeme.plain .int t.literal.toList := by
    rw [Lexeme.ofChars, if_neg (by simp [isLetter_eq_false_of_isDigit hdigit]), if_pos hdigit,
      List.takeWhile_eq_self_iff.2 hall, hcs]
  refine ⟨c, cs, isSpace_eq_false_of_takes .int (isNumberChar_of_isDigit hdigit), ?_, ?_⟩
  · rw [hlexeme, hk]
    rfl
  · rw [hlexeme]
    rfl

theorem lexical_of_string {t : Token} (hquote : '\x22' ∉ t.literal.toList)
    (hk : t.kind = .string) : t.Lexical := by
  have hbody : Lexeme.stringBody t.literal.toList = t.literal.toList := by
    rw [Lexeme.stringBody, List.takeWhile_eq_self_iff]
    intro d hd
    have hne : d ≠ '\x22' := fun heq => hquote (heq ▸ hd)
    simpa using hne
  exact ⟨'\x22', t.literal.toList, rfl, hk.symm, hbody⟩

theorem lexical_of_illegal {t : Token} {c : Char} (hc : t.literal.toList = [c])
    (hknown : isKnown c = false) (hk : t.kind = .illegal) : t.Lexical := by
  obtain ⟨hs, hletter, hdigit, hsymbol, hquote⟩ := isKnown_eq_false_iff.1 hknown
  have hlexeme : Lexeme.ofChars c [] = Lexeme.plain .illegal [c] :=
    Lexeme.ofChars_of_illegal hletter hdigit hsymbol hquote
  refine ⟨c, [], hs, ?_, ?_⟩
  · rw [hlexeme, hk]
    rfl
  · rw [hlexeme, hc]
    rfl

/-- A token depends in kind and literal only on what the scanner yields. -/
theorem Lexical.of_looksLike {t u : Token} (h : t.Lexical) (htu : t.LooksLike u) : u.Lexical := by
  obtain ⟨c, rest, hs, hk, hl⟩ := h
  exact ⟨c, rest, hs, htu.1 ▸ hk, htu.2 ▸ hl⟩

/-- **What the scanner yields**: the tokens whose kind fits their literal, and no others. -/
theorem lexical_iff {t : Token} : t.Lexical ↔ t.kind.HasLiteral t.literal := by
  constructor
  · rintro ⟨c, rest, hs, hk, hl⟩
    have h := @Lexeme.hasLiteral_ofChars c rest hs
    rwa [hk, hl, String.ofList_toList] at h
  · intro h
    obtain ⟨k, literal, line, col⟩ := t
    cases hword : k.isWord with
    | true =>
      obtain ⟨hrun, hk⟩ := (TokenKind.hasLiteral_of_isWord hword _).1 h
      exact lexical_of_word hrun hk
    | false =>
      cases k
      case eof => exact h.elim
      case int => exact lexical_of_number h rfl
      case string => exact lexical_of_string h rfl
      case illegal =>
        obtain ⟨c, hc, hknown⟩ := h
        exact lexical_of_illegal hc hknown rfl
      case equal =>
        have hsign : TokenKind.equal.sign.Lexical := ⟨'=', ['='], rfl, rfl, by decide⟩
        exact hsign.of_looksLike ⟨rfl, h.symm⟩
      case notEqual =>
        have hsign : TokenKind.notEqual.sign.Lexical := ⟨'!', ['='], rfl, rfl, by decide⟩
        exact hsign.of_looksLike ⟨rfl, h.symm⟩
      -- What is left is a word, or an operator or a delimiter of one character.
      all_goals first
        | exact absurd hword (by decide)
        | exact (TokenKind.lexical_sign (by decide)).of_looksLike ⟨rfl, h.symm⟩

end Token

/-! ### Places -/

/-- The line of what stands behind the text. -/
def lineBehind (cs : List Char) : Nat :=
  cs.count '\n' + 1

/-- The column of what stands behind the text: how far it is from the last newline, or from the
start. -/
def columnBehind (cs : List Char) : Nat :=
  (cs.reverse.takeWhile (· ≠ '\n')).length + 1

theorem lineBehind_concat (cs : List Char) (c : Char) :
    lineBehind (cs ++ [c]) = if c = '\n' then lineBehind cs + 1 else lineBehind cs := by
  by_cases hc : c = '\n'
  · simp [lineBehind, hc]
  · simp [lineBehind, hc]

theorem columnBehind_concat (cs : List Char) (c : Char) :
    columnBehind (cs ++ [c]) = if c = '\n' then 1 else columnBehind cs + 1 := by
  by_cases hc : c = '\n'
  · simp [columnBehind, hc]
  · simp [columnBehind, hc]

namespace Scanner.Cursor

variable {c : Cursor} {passed : List Char}

/-- The cursor has passed these characters, and counted them right. It shows what is ahead, and goes
on to the position after that. -/
structure HasPassed (passed : List Char) (c : Cursor) : Prop where
  position_eq : c.position = passed.length
  nextPosition_eq : c.nextPosition = passed.length + 1
  current_eq : c.current? = c.rest.head?
  line_eq : c.line = lineBehind passed
  column_eq : c.column = columnBehind passed

theorem hasPassed_ofString (source : String) : (ofString source).HasPassed [] :=
  ⟨rfl, rfl, rfl, rfl, rfl⟩

/-- **One step** counts the character that it passes, if there is one. -/
theorem HasPassed.advance (h : c.HasPassed passed) :
    c.advance.HasPassed (passed ++ c.rest.take 1) := by
  cases hr : c.rest with
  | nil =>
    rw [advance_of_rest_nil hr, List.take_nil, List.append_nil]
    exact h
  | cons ch rest =>
    obtain ⟨-, hnext, -, hline, hcolumn⟩ := h
    rw [List.take_succ_cons, List.take_zero]
    refine ⟨?_, ?_, ?_, ?_, ?_⟩
    · -- The step leads to the position that has been kept for it.
      rw [List.length_append, List.length_singleton, ← hnext, Cursor.advance, hr]
    · rw [List.length_append, List.length_singleton, ← hnext, Cursor.advance, hr]
    · rw [Cursor.advance, hr]
    · rw [lineBehind_concat, ← hline, Cursor.advance, hr]
    · rw [columnBehind_concat, ← hcolumn, Cursor.advance, hr]

theorem HasPassed.advanceBy (h : c.HasPassed passed) (n : Nat) :
    (c.advanceBy n).HasPassed (passed ++ c.rest.take n) := by
  induction n generalizing c passed with
  | zero =>
    rw [List.take_zero, List.append_nil]
    exact h
  | succ n ih =>
    have hstep := ih h.advance
    rw [rest_advance, List.append_assoc] at hstep
    rw [Nat.add_comm, List.take_add, List.drop_one, Nat.add_comm, advanceBy_succ]
    exact hstep

end Scanner.Cursor

/-! ### Lexemes are as long as they can be -/

namespace Scanner.Lexeme

variable {c : Char} {rest : List Char}

theorem take_length_takeWhile (p : Char → Bool) (cs : List Char) :
    cs.take (cs.takeWhile p).length = cs.takeWhile p :=
  (List.prefix_iff_eq_take.1 (List.takeWhile_prefix p)).symm

theorem drop_length_takeWhile (p : Char → Bool) (cs : List Char) :
    cs.drop (cs.takeWhile p).length = cs.dropWhile p := by
  have h := List.take_append_drop (cs.takeWhile p).length cs
  rw [take_length_takeWhile] at h
  exact List.append_cancel_left (h.trans (List.takeWhile_append_dropWhile).symm)

/-- A run of characters stops where it has to. -/
theorem not_of_mem_head?_dropWhile {p : Char → Bool} {cs : List Char} :
    ∀ d ∈ (cs.dropWhile p).head?, p d = false := by
  intro d hd
  have h := List.head?_dropWhile_not p cs
  rw [Option.mem_def.1 hd] at h
  exact h

/-- A lexeme takes in what it can of the characters behind it. -/
theorem takes_behind (c : Char) (rest : List Char) :
    ∀ d ∈ ((c :: rest).drop (ofChars c rest).width).head?,
      (ofChars c rest).kind.takes d = false := by
  have hshape := shape_ofChars c rest
  generalize ofChars c rest = l at hshape ⊢
  cases hshape with
  | word =>
    intro d hd
    show (TokenKind.ofWord _).takes d = false
    rw [TokenKind.takes_ofWord]
    apply not_of_mem_head?_dropWhile
    rw [← drop_length_takeWhile]
    exact hd
  | number =>
    intro d hd
    apply not_of_mem_head?_dropWhile
    rw [← drop_length_takeWhile]
    exact hd
  | equal => exact fun _ _ => rfl
  | notEqual => exact fun _ _ => rfl
  | @symbol kind _ _ hnext hkind =>
    intro d hd
    -- Two of these signs would take in an equality sign, but none comes next.
    have htakes : ∀ entry ∈ symbols, entry.2.takes d = true →
        (entry.1 = '=' ∨ entry.1 = '!') ∧ d = '=' := by
      simp [symbols, TokenKind.takes]
    cases htaken : kind.takes d with
    | false => exact htaken
    | true =>
      obtain ⟨hc, rfl⟩ := htakes _ (TokenKind.mem_symbols hkind) htaken
      exact absurd hd (hnext hc)
  | string => exact fun _ _ => rfl
  | illegal => exact fun _ _ => rfl

/-- What a lexeme takes up is what it is printed as, or it is a string that runs to the end of the
text and has no closing quote. -/
theorem take_width (c : Char) (rest : List Char) :
    (c :: rest).take (ofChars c rest).width = (ofChars c rest).text ∨
      (ofChars c rest).kind = .string ∧
        (c :: rest).take (ofChars c rest).width = '\x22' :: (ofChars c rest).literal ∧
        (c :: rest).drop (ofChars c rest).width = [] := by
  have hshape := shape_ofChars c rest
  generalize ofChars c rest = l at hshape ⊢
  cases hshape with
  | word =>
    left
    rw [text_word]
    exact congrArg (c :: ·) (take_length_takeWhile isWordChar rest)
  | number =>
    left
    exact congrArg (c :: ·) (take_length_takeWhile isNumberChar rest)
  | equal hc hnext =>
    left
    obtain ⟨after, rfl⟩ := List.head?_eq_some_iff.1 hnext
    rw [hc]
    rfl
  | notEqual hc hnext =>
    left
    obtain ⟨after, rfl⟩ := List.head?_eq_some_iff.1 hnext
    rw [hc]
    rfl
  | symbol _ _ _ hkind =>
    left
    rw [text_symbol hkind]
    rfl
  | string hc =>
    subst hc
    have hrest := List.takeWhile_append_dropWhile (p := (· ≠ '\x22')) (l := rest)
    cases hbehind : rest.dropWhile (· ≠ '\x22') with
    | nil =>
      -- No quote is left, and the body is all there is.
      right
      rw [hbehind, List.append_nil] at hrest
      have hbody : stringBody rest = rest := hrest
      rw [hbody]
      refine ⟨rfl, List.take_of_length_le ?_, List.drop_of_length_le ?_⟩ <;> simp
    | cons d after =>
      left
      have hd : d = '\x22' := by
        have hnot : decide (d ≠ '\x22') = false :=
          not_of_mem_head?_dropWhile d (by rw [hbehind]; rfl)
        simpa using hnot
      rw [hbehind, hd] at hrest
      change stringBody rest ++ '\x22' :: after = rest at hrest
      generalize stringBody rest = body at hrest ⊢
      subst hrest
      show '\x22' :: (body ++ '\x22' :: after).take (body.length + 1) = _
      rw [List.take_length_add_append]
      rfl
  | illegal =>
    left
    rfl

end Scanner.Lexeme

/-! ### Pieces of a text -/

/-- A token with the characters that it takes up, and the blanks before it. -/
structure Piece where
  blanks : List Char
  token : Token
  lexeme : List Char

namespace Piece

/-- The characters of a piece. -/
def chars (p : Piece) : List Char :=
  p.blanks ++ p.lexeme

/-- The characters of several pieces. -/
def text (ps : List Piece) : List Char :=
  ps.flatMap chars

theorem text_cons (p : Piece) (ps : List Piece) :
    text (p :: ps) = p.blanks ++ (p.lexeme ++ text ps) := by
  rw [text, List.flatMap_cons, chars, List.append_assoc]
  rfl

open Scanner in
/-- The piece has its place in a text, between the characters `before` it and those `behind` it. -/
structure StandsBetween (before behind : List Char) (p : Piece) : Prop where
  blanks : ∀ c ∈ p.blanks, isSpace c = true
  /-- The lexeme is the token as it is printed; the closing quote of a string may be missing at the
  end of the text. -/
  lexeme : p.lexeme = p.token.text ∨
    p.token.kind = .string ∧ p.lexeme = '\x22' :: p.token.literal.toList ∧ behind = []
  literal : p.token.kind.HasLiteral p.token.literal
  /-- What comes next could not have been taken in. -/
  longest : ∀ d ∈ behind.head?, p.token.kind.takes d = false
  line : p.token.line = lineBehind (before ++ p.blanks)
  col : p.token.col = columnBehind (before ++ p.blanks)

end Piece

namespace Scanner.Cursor

variable {c : Cursor} {passed : List Char}

/-- The spaces before the next token. -/
theorem run_append_rest_skipSpaces (c : Cursor) :
    c.run isSpace ++ c.skipSpaces.rest = c.rest := by
  rw [skipSpaces, rest_skipWhile]
  exact List.takeWhile_append_dropWhile

theorem HasPassed.skipSpaces (h : c.HasPassed passed) :
    c.skipSpaces.HasPassed (passed ++ c.run isSpace) := by
  have hskip := h.advanceBy (c.run isSpace).length
  rwa [run, Lexeme.take_length_takeWhile] at hskip

/-- The character after the spaces is not another one. -/
theorem isSpace_of_rest_skipSpaces {ch : Char} {rest : List Char}
    (h : c.skipSpaces.rest = ch :: rest) : isSpace ch = false := by
  rw [Cursor.skipSpaces, rest_skipWhile] at h
  apply Lexeme.not_of_mem_head?_dropWhile
  rw [h]
  rfl

/-- The piece that the cursor stands before. -/
def piece (c : Cursor) (ch : Char) (rest : List Char) : Piece where
  blanks := c.run isSpace
  token := ⟨(Lexeme.ofChars ch rest).kind, String.ofList (Lexeme.ofChars ch rest).literal,
    c.skipSpaces.line, c.skipSpaces.column⟩
  lexeme := (ch :: rest).take (Lexeme.ofChars ch rest).width

theorem piece_standsBetween (h : c.HasPassed passed) {ch : Char} {rest : List Char}
    (hr : c.skipSpaces.rest = ch :: rest) :
    (c.piece ch rest).StandsBetween passed ((ch :: rest).drop (Lexeme.ofChars ch rest).width) where
  blanks := Lexeme.all_takeWhile
  lexeme := by
    have htext : (c.piece ch rest).token.text = (Lexeme.ofChars ch rest).text := by
      rw [Token.text, Lexeme.text]
      simp [piece]
    rw [htext, piece, String.toList_ofList]
    exact Lexeme.take_width ch rest
  literal := Lexeme.hasLiteral_ofChars (isSpace_of_rest_skipSpaces hr)
  longest := Lexeme.takes_behind ch rest
  line := congrArg Nat.cast h.skipSpaces.line_eq
  col := congrArg Nat.cast h.skipSpaces.column_eq

/-- **The text ahead of a cursor** is made of its tokens. -/
theorem toList_pieces (c : Cursor) : ∀ passed, c.HasPassed passed →
    ∃ (ps : List Piece) (last : List Char),
      toList c = ps.map Piece.token ++
        [⟨.eof, "", lineBehind (passed ++ c.rest), columnBehind (passed ++ c.rest)⟩] ∧
      c.rest = Piece.text ps ++ last ∧ (∀ d ∈ last, isSpace d = true) ∧
      ∀ before p behind, ps = before ++ p :: behind →
        p.StandsBetween (passed ++ Piece.text before) (Piece.text behind ++ last) := by
  induction c using scan_induction with
  | atEnd c hr =>
    intro passed h
    have hspaces := c.run_append_rest_skipSpaces
    rw [hr, List.append_nil] at hspaces
    refine ⟨[], c.rest, ?_, rfl, ?_, ?_⟩
    · rw [toList_of_nil hr, h.skipSpaces.line_eq, h.skipSpaces.column_eq, hspaces]
      rfl
    · rw [← hspaces]
      exact Lexeme.all_takeWhile
    · intro before p behind hsplit
      cases before <;> cases hsplit
  | token c ch rest hr ih =>
    intro passed h
    have hpassed := h.skipSpaces.advanceBy (Lexeme.ofChars ch rest).width
    have hsplit : c.rest = (c.piece ch rest).blanks ++ ((c.piece ch rest).lexeme ++
        (c.skipSpaces.advanceBy (Lexeme.ofChars ch rest).width).rest) := by
      rw [rest_advanceBy, hr, piece, List.take_append_drop, ← hr, run_append_rest_skipSpaces]
    rw [hr, List.append_assoc] at hpassed
    change Cursor.HasPassed (passed ++ (c.piece ch rest).chars) _ at hpassed
    obtain ⟨ps, last, hlist, htext, hlast, hbetween⟩ := ih _ hpassed
    refine ⟨c.piece ch rest :: ps, last, ?_, ?_, hlast, ?_⟩
    · rw [toList_of_cons hr, hlist, List.append_assoc, Piece.chars, List.append_assoc, ← hsplit]
      rfl
    · rw [hsplit, htext, Piece.text_cons, List.append_assoc, List.append_assoc]
    · -- The piece in question is the first one, or one of the others.
      intro before p behind heq
      cases before with
      | nil =>
        obtain ⟨rfl, rfl⟩ := List.cons.inj heq
        have hfirst := piece_standsBetween h hr
        rw [← hr, ← rest_advanceBy, htext] at hfirst
        exact (List.append_nil passed).symm ▸ hfirst
      | cons q before =>
        obtain ⟨rfl, htail⟩ := List.cons.inj heq
        have hother := hbetween before p behind htail
        rwa [List.append_assoc] at hother

end Scanner.Cursor

open Scanner in
/-- **A text is made of its tokens.** It is the pieces of its tokens, one behind the other, and some
blanks at the end, and each piece has its place there. The tokens are those of the pieces and one
end token, whose place is the end of the text. -/
theorem exists_pieces (source : String) : ∃ (ps : List Piece) (last : List Char),
    tokenize source = ps.map Piece.token ++
      [⟨.eof, "", lineBehind source.toList, columnBehind source.toList⟩] ∧
    (∀ p ∈ ps, p.token.kind ≠ .eof) ∧
    source.toList = Piece.text ps ++ last ∧ (∀ c ∈ last, isSpace c = true) ∧
    ∀ before p behind, ps = before ++ p :: behind →
      p.StandsBetween (Piece.text before) (Piece.text behind ++ last) := by
  obtain ⟨ps, last, hlist, htext, hlast, hbetween⟩ :=
    Cursor.toList_pieces (Cursor.ofString source) [] (Cursor.hasPassed_ofString source)
  refine ⟨ps, last, hlist, fun p hp heof => ?_, htext, hlast, hbetween⟩
  obtain ⟨before, behind, hsplit⟩ := List.append_of_mem hp
  have hliteral := (hbetween before p behind hsplit).literal
  rw [heof] at hliteral
  exact hliteral

/-- A character that begins no token, and a string that is not closed. -/
example : tokenize "if\n \x00\x22a " = [⟨.ifKeyword, "if", 1, 1⟩, ⟨.illegal, "\x00", 2, 2⟩,
    ⟨.string, "a ", 2, 3⟩, ⟨.eof, "", 2, 6⟩] := by
  decide +kernel

end MonkeySyntax
