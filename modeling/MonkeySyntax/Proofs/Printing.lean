import MonkeySyntax.Proofs.Scanning

/-!
# Scanning undoes printing

A token is printed as its literal, and a string between quotes. A text that is made of printed
tokens with blanks in between is scanned back into these tokens (`Mark.tokenize_text`), provided
that no token takes in the character that is printed right behind it. Blanks are never taken in, so
they can always be put between two tokens; and where they are left out is a question of one
character (`TokenKind.takes`).

A layout is a list of marks, each of which is a blank or a token. What may be printed is every token
that the scanner yields at some place of some text (`Token.Lexical`).
-/

namespace MonkeySyntax

open TokenStream (toList)

namespace Token

open Scanner in
/-- The scanner yields such a token, at some place of some text. -/
def Lexical (t : Token) : Prop :=
  ∃ c rest, isSpace c = false ∧ (Lexeme.ofChars c rest).kind = t.kind ∧
    (Lexeme.ofChars c rest).literal = t.literal.toList

/-- The characters that a token is printed as. -/
def text (t : Token) : List Char :=
  if t.kind = .string then '\x22' :: (t.literal.toList ++ ['\x22']) else t.literal.toList

theorem text_of_ne_string {t : Token} (h : t.kind ≠ .string) : t.text = t.literal.toList :=
  if_neg h

end Token

open Scanner in
/-- A token of the kind takes in the character if it comes next. -/
def TokenKind.takes (k : TokenKind) (d : Char) : Bool :=
  match k with
  | .identifier | .functionKeyword | .letKeyword | .trueKeyword | .falseKeyword | .ifKeyword
  | .elseKeyword | .returnKeyword => isWordChar d
  | .int => isNumberChar d
  | .assign | .bang => d == '='
  | _ => false

theorem TokenKind.takes_ofWord (word : String) (d : Char) :
    (ofWord word).takes d = Scanner.isWordChar d := by
  have hk : ∀ entry ∈ keywords, entry.2.takes d = Scanner.isWordChar d := by
    simp [keywords, takes]
  rcases ofWord_eq word with h | h
  · exact hk _ h
  · rw [h]
    rfl

theorem TokenKind.takes_of_isSpace {d : Char} (h : Scanner.isSpace d = true) (k : TokenKind) :
    k.takes d = false := by
  have hd : d = ' ' ∨ d = '\t' ∨ d = '\n' ∨ d = '\r' := by
    simpa [Scanner.isSpace, or_assoc] using h
  rcases hd with rfl | rfl | rfl | rfl <;> cases k <;> rfl

/-! ### One token -/

namespace Scanner

theorem takeWhile_append_of_head {p : Char → Bool} {xs ys : List Char} (hxs : ∀ x ∈ xs, p x = true)
    (hys : ∀ d ∈ ys.head?, p d = false) : (xs ++ ys).takeWhile p = xs := by
  have hself : xs.takeWhile p = xs := List.takeWhile_eq_self_iff.2 hxs
  cases ys with
  | nil => rw [List.append_nil, hself]
  | cons d ys => rw [takeWhile_append_of_stops (.inl (hys d rfl)), hself]

namespace Lexeme

variable {c : Char} {rest z : List Char}

theorem all_takeWhile {p : Char → Bool} : ∀ x ∈ rest.takeWhile p, p x = true :=
  fun _ h => List.mem_takeWhile_imp h

/-- The characters that a lexeme is printed as. -/
def text (l : Lexeme) : List Char :=
  if l.kind = .string then '\x22' :: (l.literal ++ ['\x22']) else l.literal

theorem text_plain {kind : TokenKind} (h : kind ≠ .string) (cs : List Char) :
    (plain kind cs).text = cs :=
  if_neg h

theorem text_word (cs : List Char) : (word cs).text = cs := by
  refine text_plain (fun h => ?_) cs
  have hk : ∀ entry ∈ keywords, entry.2 ≠ .string := by decide
  rcases TokenKind.ofWord_eq (String.ofList cs) with hw | hw
  · exact hk _ hw h
  · rw [hw] at h
    cases h

theorem text_symbol {kind : TokenKind} (h : TokenKind.ofSymbol? c = some kind) (cs : List Char) :
    (plain kind cs).text = cs := by
  have hk : ∀ entry ∈ symbols, entry.2 ≠ .string := by decide
  exact text_plain (hk _ (TokenKind.mem_symbols h)) cs

/-- What a lexeme may be, by its first character and what follows. -/
inductive Shape (c : Char) (rest : List Char) : Lexeme → Prop where
  | word : isLetter c = true → Shape c rest (word (c :: rest.takeWhile isWordChar))
  | number : isLetter c = false → isDigit c = true →
      Shape c rest (plain .int (c :: rest.takeWhile isNumberChar))
  | equal : c = '=' → rest.head? = some '=' → Shape c rest (plain .equal ['=', '='])
  | notEqual : c = '!' → rest.head? = some '=' → Shape c rest (plain .notEqual ['!', '='])
  | symbol {kind : TokenKind} : isLetter c = false → isDigit c = false →
      (c = '=' ∨ c = '!' → rest.head? ≠ some '=') → TokenKind.ofSymbol? c = some kind →
      Shape c rest (plain kind [c])
  | string : c = '\x22' →
      Shape c rest ⟨.string, stringBody rest, (stringBody rest).length + 2⟩
  | illegal : isLetter c = false → isDigit c = false → TokenKind.ofSymbol? c = none →
      c ≠ '\x22' → Shape c rest (plain .illegal [c])

theorem shape_ofChars (c : Char) (rest : List Char) : Shape c rest (ofChars c rest) := by
  unfold ofChars
  split
  · next hletter => exact .word hletter
  next hletter =>
  have hletter : isLetter c = false := by simpa using hletter
  split
  · next hdigit => exact .number hletter hdigit
  next hdigit =>
  have hdigit : isDigit c = false := by simpa using hdigit
  split
  · next hequal =>
    obtain ⟨rfl, hnext⟩ := hequal
    exact .equal rfl hnext
  next hequal =>
  split
  · next hbang =>
    obtain ⟨rfl, hnext⟩ := hbang
    exact .notEqual rfl hnext
  next hbang =>
  split
  · next kind hkind =>
    refine .symbol hletter hdigit (fun hc hnext => ?_) hkind
    rcases hc with rfl | rfl
    · exact hequal ⟨rfl, hnext⟩
    · exact hbang ⟨rfl, hnext⟩
  next hsymbol =>
  split
  · next hquote => exact .string hquote
  · next hquote => exact .illegal hletter hdigit hsymbol hquote

theorem ofChars_of_symbol {kind : TokenKind} (hletter : isLetter c = false)
    (hdigit : isDigit c = false) (hnext : c = '=' ∨ c = '!' → rest.head? ≠ some '=')
    (hkind : TokenKind.ofSymbol? c = some kind) : ofChars c rest = plain kind [c] := by
  rw [ofChars, if_neg (by simp [hletter]), if_neg (by simp [hdigit]),
    if_neg (fun h => hnext (.inl h.1) h.2), if_neg (fun h => hnext (.inr h.1) h.2), hkind]

theorem ofChars_of_illegal (hletter : isLetter c = false) (hdigit : isDigit c = false)
    (hsymbol : TokenKind.ofSymbol? c = none) (hquote : c ≠ '\x22') :
    ofChars c rest = plain .illegal [c] := by
  have hne (d : Char) (k : TokenKind) (hd : TokenKind.ofSymbol? d = some k) : c ≠ d := by
    rintro rfl
    rw [hsymbol] at hd
    cases hd
  rw [ofChars, if_neg (by simp [hletter]), if_neg (by simp [hdigit]),
    if_neg (fun h => hne '=' .assign rfl h.1), if_neg (fun h => hne '!' .bang rfl h.1), hsymbol]
  exact if_neg hquote

/-- **What has been printed is read again.** -/
theorem exists_ofChars_text (hs : isSpace c = false)
    (hz : ∀ d ∈ z.head?, (ofChars c rest).kind.takes d = false) :
    ∃ c' rest', (ofChars c rest).text ++ z = c' :: rest' ∧ isSpace c' = false ∧
      ofChars c' rest' = ⟨(ofChars c rest).kind, (ofChars c rest).literal,
        (ofChars c rest).text.length⟩ := by
  have hshape := shape_ofChars c rest
  generalize ofChars c rest = l at hz hshape ⊢
  cases hshape with
  | word hletter =>
    -- A word goes on as long as it can.
    have hrun : (rest.takeWhile isWordChar ++ z).takeWhile isWordChar =
        rest.takeWhile isWordChar :=
      takeWhile_append_of_head all_takeWhile fun d hd => by
        rw [← TokenKind.takes_ofWord]
        exact hz d hd
    refine ⟨c, rest.takeWhile isWordChar ++ z, by rw [text_word]; rfl, hs, ?_⟩
    rw [ofChars, if_pos hletter, hrun, text_word]
    rfl
  | number hletter hdigit =>
    have hrun : (rest.takeWhile isNumberChar ++ z).takeWhile isNumberChar =
        rest.takeWhile isNumberChar := takeWhile_append_of_head all_takeWhile hz
    refine ⟨c, rest.takeWhile isNumberChar ++ z, rfl, hs, ?_⟩
    rw [ofChars, if_neg (by simp [hletter]), if_pos hdigit, hrun]
    rfl
  | equal => exact ⟨'=', '=' :: z, rfl, rfl, rfl⟩
  | notEqual => exact ⟨'!', '=' :: z, rfl, rfl, rfl⟩
  | @symbol kind hletter hdigit _ hkind =>
    have hnext : c = '=' ∨ c = '!' → z.head? ≠ some '=' := by
      -- These two would take in an equality sign.
      rintro (rfl | rfl) hhead
      · obtain rfl : .assign = kind := Option.some.inj hkind
        exact absurd (hz '=' hhead) (by decide)
      · obtain rfl : .bang = kind := Option.some.inj hkind
        exact absurd (hz '=' hhead) (by decide)
    refine ⟨c, z, by rw [text_symbol hkind]; rfl, hs, ?_⟩
    rw [ofChars_of_symbol hletter hdigit hnext hkind, text_symbol hkind]
    rfl
  | string =>
    -- A string ends at its closing quote.
    have hbody : stringBody (stringBody rest ++ '\x22' :: z) = stringBody rest :=
      takeWhile_append_of_head all_takeWhile (by simp)
    refine ⟨'\x22', stringBody rest ++ '\x22' :: z, by simp [text], rfl, ?_⟩
    change (⟨.string, stringBody (stringBody rest ++ '\x22' :: z),
      (stringBody (stringBody rest ++ '\x22' :: z)).length + 2⟩ : Lexeme) = _
    rw [hbody]
    simp [text]
  | illegal hletter hdigit hsymbol hquote =>
    exact ⟨c, z, rfl, hs, ofChars_of_illegal hletter hdigit hsymbol hquote⟩

end Lexeme

end Scanner

/-! ### Layouts -/

/-- A piece of a layout. -/
inductive Mark where
  | blank (c : Char)
  | token (t : Token)

namespace Mark

/-- The characters of a layout. -/
def text : List Mark → List Char
  | [] => []
  | blank c :: ms => c :: text ms
  | token t :: ms => t.text ++ text ms

/-- The tokens of a layout. -/
def tokens : List Mark → List Token
  | [] => []
  | blank _ :: ms => tokens ms
  | token t :: ms => t :: tokens ms

/-- The layout can be printed before the characters `z`: no token in it takes in what is printed
right behind it. -/
def Fits : (ms : List Mark) → (z : List Char) → Prop
  | [], _ => True
  | blank c :: ms, z => Scanner.isSpace c = true ∧ Fits ms z
  | token t :: ms, z =>
    t.Lexical ∧ (∀ d ∈ (text ms ++ z).head?, t.kind.takes d = false) ∧ Fits ms z

variable {ms ns : List Mark} {z : List Char}

@[simp] theorem text_nil : text [] = [] := rfl

@[simp] theorem text_blank (c : Char) (ms : List Mark) : text (blank c :: ms) = c :: text ms := rfl

@[simp] theorem text_token (t : Token) (ms : List Mark) :
    text (token t :: ms) = t.text ++ text ms := rfl

@[simp] theorem tokens_nil : tokens [] = [] := rfl

@[simp] theorem tokens_blank (c : Char) (ms : List Mark) :
    tokens (blank c :: ms) = tokens ms := rfl

@[simp] theorem tokens_token (t : Token) (ms : List Mark) :
    tokens (token t :: ms) = t :: tokens ms := rfl

@[simp] theorem text_append : text (ms ++ ns) = text ms ++ text ns := by
  induction ms with
  | nil => rfl
  | cons m ms ih => cases m <;> simp [ih]

@[simp] theorem tokens_append : tokens (ms ++ ns) = tokens ms ++ tokens ns := by
  induction ms with
  | nil => rfl
  | cons m ms ih => cases m <;> simp [ih]

/-- Two layouts, one behind the other. -/
theorem fits_append : Fits (ms ++ ns) z ↔ Fits ms (text ns ++ z) ∧ Fits ns z := by
  induction ms with
  | nil => simp [Fits]
  | cons m ms ih =>
    cases m with
    | blank c => simp only [List.cons_append, Fits, ih, and_assoc]
    | token t => simp only [List.cons_append, Fits, ih, and_assoc, text_append, List.append_assoc]

end Mark

open Scanner Cursor in
theorem Token.Lexical.toList_eq {t : Token} (h : t.Lexical) {z : List Char}
    (hz : ∀ d ∈ z.head?, t.kind.takes d = false) {c : Cursor} (hc : c.rest = t.text ++ z) :
    ∃ u : Token, u.LooksLike t ∧ ∃ c' : Cursor, c'.rest = z ∧ toList c = u :: toList c' := by
  obtain ⟨ch, rest, hs, hk, hl⟩ := h
  have htext : t.text = (Lexeme.ofChars ch rest).text := by rw [text, Lexeme.text, hk, hl]
  obtain ⟨ch', rest', hcons, hspace, hlexeme⟩ := Lexeme.exists_ofChars_text hs (hk ▸ hz)
  rw [← htext] at hcons hlexeme
  have hrest : c.rest = ch' :: rest' := hc.trans hcons
  -- The token begins right here.
  have hskip : c.skipSpaces = c := by
    rw [skipSpaces, skipWhile, run, hrest, List.takeWhile_cons, if_neg (by simp [hspace])]
    rfl
  refine ⟨_, ⟨?_, ?_⟩, _, ?_, toList_of_cons (hskip ▸ hrest)⟩
  · rw [hlexeme, hk]
  · rw [hlexeme, hl, String.ofList_toList]
  · rw [hskip, hlexeme, rest_advanceBy, hc, List.drop_left]

open Scanner in
/-- **Scanning undoes printing.** -/
theorem Mark.exists_toList {ms : List Mark} (h : Fits ms []) {c : Cursor} (hc : c.rest = text ms) :
    ∃ us e, toList c = us ++ [e] ∧ List.Forall₂ Token.LooksLike us (tokens ms) := by
  induction ms generalizing c with
  | nil =>
    refine ⟨[], _, Cursor.toList_of_nil ?_, .nil⟩
    rw [Cursor.skipSpaces_of_nil hc, hc]
    rfl
  | cons m ms ih =>
    cases m with
    | blank ch =>
      obtain ⟨hspace, hfits⟩ := h
      have hadvance : c.advance.rest = text ms := by
        rw [Cursor.rest_advance, hc]
        rfl
      obtain ⟨us, e, heq, hus⟩ := ih hfits hadvance
      refine ⟨us, e, ?_, hus⟩
      rw [← heq]
      refine TokenStream.toList_congr ?_
      change Cursor.tokenHere _ = Cursor.tokenHere _
      rw [Cursor.skipSpaces_of_cons hc hspace]
    | token t =>
      obtain ⟨hlexical, hnext, hfits⟩ := h
      rw [List.append_nil] at hnext
      obtain ⟨u, hu, c', hc', heq⟩ := hlexical.toList_eq hnext hc
      obtain ⟨us, e, heq', hus⟩ := ih hfits hc'
      exact ⟨u :: us, e, by rw [heq, heq']; rfl, .cons hu hus⟩

theorem Mark.tokenize_text {ms : List Mark} (h : Fits ms []) :
    List.Forall₂ Token.LooksLike (tokenize (String.ofList (text ms))).dropLast (tokens ms) := by
  have hrest : (Scanner.Cursor.ofString (String.ofList (text ms))).rest = text ms :=
    String.toList_ofList
  obtain ⟨us, e, heq, hus⟩ := Mark.exists_toList h hrest
  rw [tokenize, heq, List.dropLast_concat]
  exact hus

namespace Mark

variable {ts : List Token} {z : List Char}

/-- The tokens with a blank behind each. -/
def spaced (ts : List Token) : List Mark :=
  ts.flatMap fun t => [token t, blank ' ']

theorem spaced_cons (t : Token) (ts : List Token) :
    spaced (t :: ts) = token t :: blank ' ' :: spaced ts := rfl

theorem tokens_spaced (ts : List Token) : tokens (spaced ts) = ts := by
  induction ts with
  | nil => rfl
  | cons t ts ih => rw [spaced_cons, tokens_token, tokens_blank, ih]

/-- No token takes in a blank. -/
theorem fits_spaced (h : ∀ t ∈ ts, t.Lexical) : Fits (spaced ts) z := by
  induction ts with
  | nil => exact trivial
  | cons t ts ih =>
    obtain ⟨ht, hts⟩ := List.forall_mem_cons.1 h
    rw [spaced_cons]
    refine ⟨ht, fun d hd => ?_, rfl, ih hts⟩
    obtain rfl : ' ' = d := Option.some.inj hd
    exact TokenKind.takes_of_isSpace rfl _

end Mark

/-- Tokens that can be printed are the tokens of some text. -/
theorem exists_tokenize_of_lexical {ts : List Token} (h : ∀ t ∈ ts, t.Lexical) :
    ∃ source, List.Forall₂ Token.LooksLike (tokenize source).dropLast ts := by
  have hscan := Mark.tokenize_text (Mark.fits_spaced h)
  rw [Mark.tokens_spaced] at hscan
  exact ⟨_, hscan⟩

/-! ### Tokens that can be printed -/

namespace TokenKind

/-- A token by itself of an operator or a delimiter. -/
def sign (k : TokenKind) : Token :=
  ⟨k, k.display, 0, 0⟩

open Scanner in
/-- Operators and delimiters of one character can be printed. -/
theorem lexical_sign {k : TokenKind} (h : k ∈ symbols.map Prod.snd) : k.sign.Lexical := by
  have hscan : ∀ entry ∈ symbols, isSpace entry.1 = false ∧
      (Lexeme.ofChars entry.1 []).kind = entry.2 ∧
      (Lexeme.ofChars entry.1 []).literal = entry.2.sign.literal.toList := by
    decide
  obtain ⟨⟨c, k⟩, hmem, rfl⟩ := List.mem_map.1 h
  obtain ⟨hs, hk, hl⟩ := hscan _ hmem
  exact ⟨c, [], hs, hk, hl⟩

end TokenKind

open Scanner in
theorem lexical_of_mem_toList (c : Cursor) :
    ∀ t ∈ toList c, t.kind ≠ .eof → t.Lexical := by
  induction c using Cursor.scan_induction with
  | atEnd c hr =>
    intro t ht hne
    rw [Cursor.toList_of_nil hr, List.mem_singleton] at ht
    exact absurd (ht ▸ rfl) hne
  | token c ch rest hr ih =>
    intro t ht hne
    rw [Cursor.toList_of_cons hr] at ht
    rcases List.mem_cons.1 ht with rfl | ht
    · refine ⟨ch, rest, ?_, rfl, String.toList_ofList.symm⟩
      -- The spaces before the token have been skipped.
      have hdrop : c.rest.dropWhile isSpace = ch :: rest := by
        rw [← Cursor.rest_skipWhile]
        exact hr
      have hnot := List.head_dropWhile_not isSpace (l := c.rest) (by simp [hdrop])
      simpa [hdrop] using hnot
    · exact ih t ht hne

/-- The tokens of a text can be printed. -/
theorem lexical_of_mem_tokenize {source : String} {t : Token}
    (h : t ∈ (tokenize source).dropLast) : t.Lexical := by
  obtain ⟨ts, e, heq, -, hne⟩ := TokenStream.exists_toList_eq (Scanner.Cursor.ofString source)
  rw [tokenize, heq, List.dropLast_concat] at h
  refine lexical_of_mem_toList (Scanner.Cursor.ofString source) t ?_ (hne t h)
  rw [heq]
  exact List.mem_append_left _ h

end MonkeySyntax
