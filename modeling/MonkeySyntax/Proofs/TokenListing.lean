import Mathlib.Data.List.Forall2
import MonkeySyntax.Listing
import MonkeySyntax.Proofs.SelfDelimiting
import MonkeySyntax.Proofs.Separation

/-!
# Listings of tokens can be read back

A listing of tokens shows one token on each line (`Listing.oneLineEach_ofTokens`) and tells it up to
its place (`Listing.ofTokens_eq_iff`). Three facts carry this. Whatever its literal holds, a line
consists of printable characters (`Listing.isPrintable_of_mem_line`), so the newline behind it is
the first one, and no other character can be taken for the end of a line. The name of a kind holds
no space, so it ends where the filling begins. And different texts have different quoted forms.
-/

namespace MonkeySyntax

/-! ### Quoted texts are printable -/

namespace Text

theorem isPrintable_hexDigit {d : Nat} (h : d < 16) : isPrintable (hexDigit d) = true := by
  have hall : ∀ d < 16, isPrintable (hexDigit d) = true := by decide
  exact hall d h

theorem isPrintable_of_mem_hex {width n : Nat} {c : Char} (h : c ∈ hex width n) :
    isPrintable c = true := by
  induction width generalizing n with
  | zero => exact absurd h List.not_mem_nil
  | succ width ih =>
    obtain h | h := List.mem_append.1 h
    · exact ih h
    · obtain rfl := List.mem_singleton.1 h
      exact isPrintable_hexDigit (Nat.mod_lt n (by decide))

theorem isPrintable_backslash : isPrintable backslash = true := by decide

theorem isPrintable_of_mem_marks {mark : Char} (h : mark ∈ marks) : isPrintable mark = true := by
  obtain rfl | rfl := eq_of_mem_marks h <;> decide

theorem isPrintable_of_mem_codePointEscape {c d : Char} (h : d ∈ codePointEscape c) :
    isPrintable d = true := by
  have hforms : codePointForms.all fun form => isPrintable form.1 := by decide
  obtain ⟨form, hform, hescape, -⟩ := codePointEscape_form c
  rw [hescape, List.mem_cons, List.mem_cons] at h
  obtain rfl | rfl | h := h
  · exact isPrintable_backslash
  · exact List.all_eq_true.1 hforms form hform
  · exact isPrintable_of_mem_hex h

/-- Whatever the character is, it is written with printable ones. -/
theorem isPrintable_of_mem_quotedChar {mark c d : Char} (hmark : mark ∈ marks)
    (h : d ∈ quotedChar mark c) : isPrintable d = true := by
  -- The letters of the short escapes.
  have hletter : ∀ letter, d ∈ [backslash, letter] → isPrintable letter = true →
      isPrintable d = true := by
    intro letter hd hprintable
    obtain rfl | hd := List.mem_cons.1 hd
    · exact isPrintable_backslash
    · rwa [List.mem_singleton.1 hd]
  unfold quotedChar at h
  split_ifs at h with hescaped ht hn hr hprintable
  · refine hletter c h ?_
    obtain rfl | rfl := hescaped
    · exact isPrintable_of_mem_marks hmark
    · exact isPrintable_backslash
  · exact hletter _ h (by decide)
  · exact hletter _ h (by decide)
  · exact hletter _ h (by decide)
  · rwa [List.mem_singleton.1 h]
  · exact isPrintable_of_mem_codePointEscape h

/-- **A quoted text is printable**, whatever the text holds. -/
theorem isPrintable_of_mem_quotedList {cs : List Char} {c : Char} (h : c ∈ quotedList cs) :
    isPrintable c = true := by
  have hmark := quoteMark_mem_marks cs
  simp only [quotedList, List.cons_append, List.mem_cons, List.mem_append, List.mem_flatMap,
    List.not_mem_nil, or_false] at h
  obtain rfl | ⟨d, -, hd⟩ | rfl := h
  · exact isPrintable_of_mem_marks hmark
  · exact isPrintable_of_mem_quotedChar hmark hd
  · exact isPrintable_of_mem_marks hmark

end Text

namespace Listing

open Text (isPrintable quotedList)

variable {t u : Token} {ts us : List Token}

/-! ### Lines -/

/-- The line for one token, without its end. -/
def line (t : Token) : String :=
  "[token] >>> " ++ fill 12 t.kind.name ++ " " ++ Text.quoted t.literal

theorem tokenLine_eq (t : Token) : tokenLine t = line t ++ "\n" := rfl

/-- What stands between the name of a kind and the quoted literal. -/
def gap (kind : TokenKind) : List Char :=
  List.replicate (12 - kind.name.length) ' ' ++ [' ']

theorem toList_line (t : Token) : (line t).toList =
    "[token] >>> ".toList ++ (t.kind.name.toList ++ (gap t.kind ++ quotedList t.literal.toList)) := by
  simp [line, fill, gap]

/-- The names of the kinds are words of printable characters. -/
theorem name_all (kind : TokenKind) :
    (kind.name.toList.all fun c => isPrintable c && c != ' ') = true := by
  cases kind <;> decide

theorem isPrintable_of_mem_line {c : Char} (h : c ∈ (line t).toList) : isPrintable c = true := by
  have hlabel : "[token] >>> ".toList.all isPrintable = true := by decide
  rw [toList_line, List.mem_append, List.mem_append, List.mem_append] at h
  obtain h | h | h | h := h
  · exact List.all_eq_true.1 hlabel c h
  · exact (Bool.and_eq_true_iff.1 (List.all_eq_true.1 (name_all t.kind) c h)).1
  · obtain h | h := List.mem_append.1 h
    · rw [List.eq_of_mem_replicate h]
      decide
    · rw [List.mem_singleton.1 h]
      decide
  · exact Text.isPrintable_of_mem_quotedList h

theorem newline_notMem_line (t : Token) : '\n' ∉ (line t).toList := by
  intro h
  exact absurd (isPrintable_of_mem_line h) (by decide)

/-- A name ends where the filling begins. -/
theorem endsRun_gap (kind : TokenKind) (rest : List Char) :
    Text.EndsRun (· != ' ') (gap kind ++ rest) := by
  intro c hc
  obtain rfl : ' ' = c := by
    cases h : 12 - kind.name.length <;> simpa [gap, h, List.replicate_succ] using hc
  rfl

/-- **A line tells its token**, except for the place. -/
theorem line_eq_iff : line t = line u ↔ t.LooksLike u := by
  constructor
  · intro h
    have hlists := congrArg String.toList h
    rw [toList_line, toList_line] at hlists
    have hword : ∀ kind : TokenKind, ∀ c ∈ kind.name.toList, (c != ' ') = true := fun kind c hc =>
      (Bool.and_eq_true_iff.1 (List.all_eq_true.1 (name_all kind) c hc)).2
    obtain ⟨hname, hrest⟩ := Text.run_append_inj (hword t.kind) (hword u.kind)
      (endsRun_gap t.kind _) (endsRun_gap u.kind _) (List.append_cancel_left hlists)
    have hkind : t.kind = u.kind := TokenKind.name_injective (String.toList_injective hname)
    rw [hkind] at hrest
    refine ⟨hkind, Text.quoted_injective (String.toList_injective ?_)⟩
    rw [Text.toList_quoted, Text.toList_quoted]
    exact List.append_cancel_left hrest
  · rintro ⟨hkind, hliteral⟩
    rw [line, line, hkind, hliteral]

/-! ### Listings -/

/-- The listing shows the tokens one by one, each on a line of its own. -/
structure OneLineEach (ts : List Token) (listing : String) : Prop where
  /-- Up to each newline there is the line of a token, and nothing behind the last newline. -/
  lines : (listing.toList.splitOn '\n').map String.ofList = ts.map line ++ [""]
  /-- Apart from the newlines, all that is shown is printable. -/
  printable : ∀ c ∈ listing.toList, c = '\n' ∨ isPrintable c = true

theorem toList_ofTokens_cons (t : Token) (ts : List Token) :
    (ofTokens (t :: ts)).toList = (line t).toList ++ '\n' :: (ofTokens ts).toList := by
  simp [ofTokens, tokenLine_eq]

/-- **Every token has a line of its own**, whatever the tokens are. -/
theorem oneLineEach_ofTokens (ts : List Token) : OneLineEach ts (ofTokens ts) := by
  induction ts with
  | nil => exact ⟨rfl, fun _ h => absurd h List.not_mem_nil⟩
  | cons t ts ih =>
    refine ⟨?_, fun c hc => ?_⟩
    · rw [toList_ofTokens_cons, List.splitOn_append_cons_self_of_not_mem (newline_notMem_line t),
        List.map_cons, ih.lines, String.ofList_toList, List.map_cons, List.cons_append]
    · rw [toList_ofTokens_cons, List.mem_append, List.mem_cons] at hc
      obtain hc | rfl | hc := hc
      · exact .inr (isPrintable_of_mem_line hc)
      · exact .inl rfl
      · exact ih.printable c hc

/-- **A listing tells its tokens**, except for their places. -/
theorem ofTokens_eq_iff : ofTokens ts = ofTokens us ↔ List.Forall₂ Token.LooksLike ts us := by
  have hlines : ts.map line = us.map line ↔ List.Forall₂ Token.LooksLike ts us := by
    rw [← List.forall₂_eq_eq_eq, List.forall₂_map_left_iff, List.forall₂_map_right_iff]
    simp only [line_eq_iff]
  rw [← hlines]
  constructor
  · intro h
    have ht := (oneLineEach_ofTokens ts).lines
    rw [h, (oneLineEach_ofTokens us).lines] at ht
    exact (List.append_cancel_right ht).symm
  · intro h
    have heq : ∀ vs, ofTokens vs = String.join ((vs.map line).map (· ++ "\n")) := fun vs => by
      rw [List.map_map]
      rfl
    rw [heq, heq, h]

/-! ### Listings of texts -/

/-- The tokens of a text that a listing shows are all but the last, which is the end token. -/
theorem exists_tokenize_eq (source : String) : ∃ (ts : List Token) (line col : Int),
    tokenize source = ts ++ [⟨.eof, "", line, col⟩] ∧ (∀ t ∈ ts, t.kind ≠ .eof) ∧
      (tokenize source).filter (·.kind ≠ .eof) = ts := by
  obtain ⟨ts, line, col, hlist⟩ := tokenize_eq_concat source
  have hts : ∀ t ∈ ts, t.kind ≠ .eof := fun _ => TokenStream.kind_ne_eof_of_toList_eq hlist
  refine ⟨ts, line, col, hlist, hts, ?_⟩
  rw [hlist, List.filter_append, List.filter_eq_self.2 (by simpa using hts)]
  simp

/-- **Listings are unambiguous.** The listing of a text has one line for each token before the end
token, each ended by a newline, and nothing else, whatever the literals hold. And two texts have the
same listing exactly if their tokens look alike one by one. -/
theorem ofSource_tells_tokens (source : String) :
    (∃ ts e, tokenize source = ts ++ [e] ∧ e.kind = .eof ∧ (∀ t ∈ ts, t.kind ≠ .eof) ∧
      OneLineEach ts (ofSource source)) ∧
    ∀ other, ofSource source = ofSource other ↔
      List.Forall₂ Token.LooksLike (tokenize source) (tokenize other) := by
  obtain ⟨ts, line, col, hsource, hts, hshown⟩ := exists_tokenize_eq source
  refine ⟨⟨ts, _, hsource, rfl, hts, ?_⟩, fun other => ?_⟩
  · rw [ofSource, hshown]
    exact oneLineEach_ofTokens ts
  · obtain ⟨us, line', col', hother, -, hshown'⟩ := exists_tokenize_eq other
    rw [ofSource, ofSource, ofTokens_eq_iff]
    constructor
    · intro h
      rw [hshown, hshown'] at h
      rw [hsource, hother]
      exact List.rel_append h (.cons ⟨rfl, rfl⟩ .nil)
    · refine fun h => List.rel_filter (fun t u htu => ?_) h
      simp only [htu.1]

/-- The line end inside a string is shown as an escape and ends no line of the listing. -/
example : ofSource "x\x22it's\n\x22" =
    "[token] >>> IDENTIFIER   'x'\n[token] >>> STRING       \x22it's\\n\x22\n" := by
  rfl

end Listing

end MonkeySyntax
