import MonkeySyntax.Proofs.Pieces

/-!
# Where blanks are needed

Tokens can be printed one right behind the other and are scanned back, except for a few pairs: a
word followed by a word or a number, a number followed by a number or a dot, and a sign that goes on
with an equality sign (`Token.Joins`). Between the tokens of such a pair there has to be a blank. Any
other layout is scanned back into its tokens.

That no other pair needs a blank rests on how little the scanner looks ahead: whether a token takes
in what follows is decided by the first character that follows (`Token.joins_of_takes`), and this
character tells what kind of token it begins.
-/

namespace MonkeySyntax

namespace Token

/-- The first token cannot be told from the second one, if this is printed right behind it. -/
def Joins (t u : Token) : Prop :=
  t.kind.isWord = true ∧ (u.kind.isWord = true ∨ u.kind = .int) ∨
  t.kind = .int ∧ (u.kind = .int ∨ u.kind = .illegal ∧ u.literal = ".") ∨
  (t.kind = .assign ∨ t.kind = .bang) ∧ (u.kind = .assign ∨ u.kind = .equal)

instance (t u : Token) : Decidable (t.Joins u) :=
  inferInstanceAs (Decidable (_ ∨ _))

end Token

namespace TokenKind

open Scanner

/-- Three classes of characters are ever taken in. -/
theorem takes_eq_true_iff {k : TokenKind} {d : Char} :
    k.takes d = true ↔ k.isWord = true ∧ isWordChar d = true ∨ k = int ∧ isNumberChar d = true ∨
      (k = assign ∨ k = bang) ∧ d = '=' := by
  cases k <;> simp [takes, isWord]

end TokenKind

namespace Scanner.Lexeme

variable {c : Char} {rest : List Char}

/-- A lexeme is printed with its first character in front. -/
theorem exists_text_eq_cons (c : Char) (rest : List Char) :
    ∃ cs, (ofChars c rest).text = c :: cs := by
  have hshape := shape_ofChars c rest
  generalize ofChars c rest = l at hshape ⊢
  cases hshape with
  | word => exact ⟨_, text_word _⟩
  | number => exact ⟨_, rfl⟩
  | equal hc => exact ⟨['='], by rw [hc]; rfl⟩
  | notEqual hc => exact ⟨['='], by rw [hc]; rfl⟩
  | symbol _ _ _ hkind => exact ⟨[], text_symbol hkind _⟩
  | string hc => exact ⟨stringBody rest ++ ['\x22'], by rw [hc]; rfl⟩
  | illegal => exact ⟨[], rfl⟩

/-! The first character of a lexeme tells its kind, as far as it matters here. -/

theorem isWord_of_isLetter (h : isLetter c = true) : (ofChars c rest).kind.isWord = true := by
  rw [ofChars, if_pos h]
  exact TokenKind.isWord_ofWord _

theorem kind_of_isDigit (h : isDigit c = true) : (ofChars c rest).kind = .int := by
  rw [ofChars, if_neg (by simp [isLetter_eq_false_of_isDigit h]), if_pos h]
  rfl

theorem kind_of_equality (rest : List Char) :
    (ofChars '=' rest).kind = .assign ∨ (ofChars '=' rest).kind = .equal := by
  by_cases hnext : rest.head? = some '='
  · right
    rw [ofChars, if_neg (by decide), if_neg (by decide), if_pos ⟨rfl, hnext⟩]
    rfl
  · left
    rw [ofChars_of_symbol rfl rfl (fun _ => hnext) rfl]
    rfl

end Scanner.Lexeme

open Scanner in
/-- **How far the scanner looks ahead.** Whether a token takes in the one that is printed behind it is
decided by the first character of this one, and then the two make a pair that needs a blank. -/
theorem Token.joins_of_takes {u : Token} (hu : u.Lexical) :
    ∃ d cs, u.text = d :: cs ∧ ∀ t : Token, t.kind.takes d = true → t.Joins u := by
  obtain ⟨d, rest, -, hk, hl⟩ := hu
  have htext : u.text = (Lexeme.ofChars d rest).text := by rw [text, Lexeme.text, hk, hl]
  obtain ⟨cs, hcs⟩ := Lexeme.exists_text_eq_cons d rest
  refine ⟨d, cs, htext.trans hcs, fun t htakes => ?_⟩
  -- A word takes in letters and digits, a number digits and dots, and a sign an equality sign.
  rcases TokenKind.takes_eq_true_iff.1 htakes with ⟨hword, hd⟩ | ⟨hint, hd⟩ | ⟨hsign, rfl⟩
  · refine .inl ⟨hword, ?_⟩
    rw [isWordChar, Bool.or_eq_true] at hd
    cases hd with
    | inl hletter => exact .inl (hk ▸ Lexeme.isWord_of_isLetter hletter)
    | inr hdigit => exact .inr (hk ▸ Lexeme.kind_of_isDigit hdigit)
  · refine .inr (.inl ⟨hint, ?_⟩)
    rw [isNumberChar, Bool.or_eq_true, beq_iff_eq] at hd
    cases hd with
    | inl hdigit => exact .inl (hk ▸ Lexeme.kind_of_isDigit hdigit)
    | inr hdot =>
      subst hdot
      exact .inr ⟨hk.symm, String.toList_inj.1 hl.symm⟩
  · refine .inr (.inr ⟨hsign, ?_⟩)
    rw [← hk]
    exact Lexeme.kind_of_equality rest

/-! ### Layouts without superfluous blanks -/

namespace Mark

/-- The mark is a character that is skipped, or a token whose literal fits its kind. -/
def IsPrintable : Mark → Prop
  | blank c => Scanner.isSpace c = true
  | token t => t.kind.HasLiteral t.literal

/-- The marks may stand side by side. -/
def Apart : Mark → Mark → Prop
  | token t, token u => ¬ t.Joins u
  | _, _ => True

instance : ∀ m n, Decidable (Apart m n)
  | token t, token u => inferInstanceAs (Decidable (¬ t.Joins u))
  | token _, blank _ => inferInstanceAs (Decidable True)
  | blank _, _ => inferInstanceAs (Decidable True)

variable {m n : Mark} {ms : List Mark}

theorem fits_cons (hm : m.IsPrintable) (h : Fits ms [])
    (hnext : ∀ t, m = token t → ∀ d ∈ (text ms).head?, t.kind.takes d = false) :
    Fits (m :: ms) [] := by
  cases m with
  | blank c => exact ⟨hm, h⟩
  | token t =>
    refine ⟨Token.lexical_iff.2 hm, ?_, h⟩
    rw [List.append_nil]
    exact hnext t rfl

/-- A token does not take in what may stand behind it. -/
theorem not_takes_of_apart {t : Token} (hn : n.IsPrintable) (h : Apart (token t) n) :
    ∀ d ∈ (text (n :: ms)).head?, t.kind.takes d = false := by
  intro d hd
  cases n with
  | blank c =>
    obtain rfl : c = d := Option.some.inj hd
    exact TokenKind.takes_of_isSpace hn _
  | token u =>
    obtain ⟨e, cs, hcs, hjoins⟩ := Token.joins_of_takes (Token.lexical_iff.2 hn)
    rw [text_token, hcs] at hd
    obtain rfl : e = d := Option.some.inj hd
    exact Bool.eq_false_iff.2 fun htakes => h (hjoins t htakes)

/-- Marks that may stand side by side make a layout. -/
theorem fits_of_isChain (h : ms.IsChain Apart) (hms : ∀ m ∈ ms, m.IsPrintable) :
    Fits ms [] := by
  induction h with
  | nil => exact trivial
  | singleton m =>
    refine fits_cons (hms m List.mem_cons_self) trivial fun t _ d hd => ?_
    cases hd
  | cons_cons hmn _ ih =>
    obtain ⟨hm, hrest⟩ := List.forall_mem_cons.1 hms
    refine fits_cons hm (ih hrest) fun t ht => ?_
    subst ht
    exact not_takes_of_apart (hrest _ List.mem_cons_self) hmn

end Mark

theorem map_eq_of_looksLike {ts us : List Token} (h : List.Forall₂ Token.LooksLike ts us) :
    ts.map (fun t => (t.kind, t.literal)) = us.map fun t => (t.kind, t.literal) := by
  induction h with
  | nil => rfl
  | cons hlooks _ ih => rw [List.map_cons, List.map_cons, ih, hlooks.1, hlooks.2]

/-- The end token has no text. -/
theorem tokenize_eq_concat (source : String) : ∃ (ts : List Token) (line col : Int),
    tokenize source = ts ++ [⟨.eof, "", line, col⟩] := by
  obtain ⟨ps, _, hlist, -⟩ := Scanner.Cursor.toList_pieces (Scanner.Cursor.ofString source) []
    (Scanner.Cursor.hasPassed_ofString source)
  exact ⟨_, _, _, hlist⟩

/-- **Scanning undoes printing.** Tokens whose literals fit their kinds are printed with any blanks
before, between and behind them, where a blank is needed only between the tokens of a pair that
would join. The text is scanned back into exactly these tokens and the end token. -/
theorem tokenize_text_of_apart {ms : List Mark} (hms : ∀ m ∈ ms, m.IsPrintable)
    (hapart : ms.IsChain Mark.Apart) :
    (tokenize (String.ofList (Mark.text ms))).map (fun t => (t.kind, t.literal)) =
      (Mark.tokens ms).map (fun t => (t.kind, t.literal)) ++ [(.eof, "")] := by
  have hscan := Mark.tokenize_text (Mark.fits_of_isChain hapart hms)
  obtain ⟨ts, line, col, hlist⟩ := tokenize_eq_concat (String.ofList (Mark.text ms))
  rw [hlist, List.dropLast_concat] at hscan
  rw [hlist, List.map_append, map_eq_of_looksLike hscan]
  rfl

open Mark in
/-- A condition in which only the reserved word and the number have to be kept apart: `if 1.5x=="a"`
and an illegal character. -/
theorem tokenize_text_of_apart_condition :
    (tokenize "if 1.5x==\x22a\x22@\n").map (fun t => (t.kind, t.literal)) =
      [(.ifKeyword, "if"), (.int, "1.5"), (.identifier, "x"), (.equal, "=="), (.string, "a"),
        (.illegal, "@"), (.eof, "")] := by
  refine @tokenize_text_of_apart [token ⟨.ifKeyword, "if", 0, 0⟩, blank ' ',
    token ⟨.int, "1.5", 0, 0⟩, token ⟨.identifier, "x", 0, 0⟩, token ⟨.equal, "==", 0, 0⟩,
    token ⟨.string, "a", 0, 0⟩, token ⟨.illegal, "@", 0, 0⟩, blank '\n'] ?_ ?_
  · simp only [List.forall_mem_cons, IsPrintable, TokenKind.HasLiteral]
    exact ⟨by decide, rfl, by decide, by decide, rfl, by decide, ⟨'@', rfl, rfl⟩, rfl,
      fun _ h => absurd h List.not_mem_nil⟩
  · decide

end MonkeySyntax
