import MonkeySyntax.Proofs.Digits
import MonkeySyntax.Proofs.Pieces

/-!
# Numerals of the scanner

The scanner takes a digit and all digits and dots behind it for one number. Of all the notations of
integers this leaves two: decimal digits, and octal digits behind a zero. There are no signs, blanks
or announced bases to be considered (`Numeral.plain?_of_isRun`), and a text with a dot in it denotes
no number at all (`Numeral.isDigit_of_number?`).

So the value of such a text can be told from its characters (`Numeral.value?_of_scanned`). That a
decimal number may have so many digits and no more does not show in it. Without a zero in front such
a number is out of range anyway, and zeros alone, of which there may be any number, are read as
octal where they are too many to be decimal.
-/

namespace MonkeySyntax.Numeral

open Scanner

/-! ### Characters of numbers -/

theorem isNumberChar_iff (c : Char) : isNumberChar c = true ↔ isDigit c = true ∨ c = '.' := by
  simp [isNumberChar]

/-- The scanner's digits are those from `0` to `9`. -/
theorem toNat_of_isDigit {c : Char} (h : isDigit c = true) : 0x30 ≤ c.toNat ∧ c.toNat ≤ 0x39 := by
  simp only [isDigit, Bool.and_eq_true, decide_eq_true_eq] at h
  exact h

theorem isGraphic_of_isNumberChar {c : Char} (h : isNumberChar c = true) : IsGraphic c := by
  rcases (isNumberChar_iff c).1 h with hdigit | rfl
  · have hbounds := toNat_of_isDigit hdigit
    exact ⟨by omega, by omega⟩
  · decide

/-! ### Texts of the scanner -/

variable {cs : List Char}

theorem isNumberChar_of_isRun (h : IsRun isDigit isNumberChar cs) :
    ∀ c ∈ cs, isNumberChar c = true := by
  obtain ⟨c, rest, rfl, hfirst, hrest⟩ := h.exists_cons
  intro d hd
  rcases List.mem_cons.1 hd with rfl | hd
  · exact isNumberChar_of_isDigit hfirst
  · exact hrest d hd

/-- **What a number of the scanner denotes by its notation** is decimal. -/
theorem plain?_of_isRun (h : IsRun isDigit isNumberChar cs) :
    plain? cs = (decimal? cs).map Int.ofNat := by
  have hall := isNumberChar_of_isRun h
  have hsign : ∀ c ∈ cs.head?, c ∉ signs := by
    intro c hc hsign
    have hnone : ∀ c ∈ signs, isNumberChar c = false := by simp [signs, isNumberChar, isDigit]
    exact absurd (hall c (List.mem_of_mem_head? hc)) (by simp [hnone c hsign])
  have hletter : ∀ a ∈ announcements, a.1 ∉ cs := by
    intro a ha hmem
    have hnone : ∀ a ∈ announcements, isNumberChar a.1 = false := by decide
    exact absurd (hall a.1 hmem) (by simp [hnone a ha])
  rw [plain?_of_isGraphic fun c hc => isGraphic_of_isNumberChar (hall c hc),
    signed?_of_forall_ne hsign, unsigned?_of_notMem hletter]

/-! ### Digits -/

/-- The decimal digits of any script that are characters of the scanner's numbers. -/
theorem isDigit_of_decimalValue? {c : Char} (h : isNumberChar c = true)
    (hd : (Text.decimalValue? c).isSome) : isDigit c = true := by
  rcases (isNumberChar_iff c).1 h with hdigit | rfl
  · exact hdigit
  · exact absurd hd (by decide)

theorem isDigit_of_digit? {c : Char} (h : isNumberChar c = true)
    (hd : c = '_' ∨ (digit? 10 c).isSome) : isDigit c = true := by
  rcases (isNumberChar_iff c).1 h with hdigit | rfl
  · exact hdigit
  · exact absurd hd (by decide)

theorem isSome_of_mapM {f : Char → Option Nat} {ds : List Nat} (h : cs.mapM f = some ds) :
    ∀ c ∈ cs, (f c).isSome := by
  induction cs generalizing ds with
  | nil => exact fun c hc => absurd hc List.not_mem_nil
  | cons c cs ih =>
    simp only [List.mapM_cons, Option.bind_eq_bind, Option.bind_eq_some_iff] at h
    obtain ⟨d, hd, ds', hds', -⟩ := h
    intro c' hc'
    rcases List.mem_cons.1 hc' with rfl | hc'
    · exact Option.isSome_of_eq_some hd
    · exact ih hds' c' hc'

/-- **A number of the scanner that denotes one** is made of digits only, and not negative. -/
theorem isDigit_of_number? (h : IsRun isDigit isNumberChar cs) {n : Int}
    (hn : number? cs = some n) : (∀ c ∈ cs, isDigit c = true) ∧ 0 ≤ n := by
  have hall := isNumberChar_of_isRun h
  rw [number?, plain?_of_isRun h, Option.or_eq_some_iff] at hn
  rcases hn with hdecimal | ⟨-, hoctal⟩
  · -- The text is a decimal number.
    obtain ⟨k, hk, rfl⟩ := Option.map_eq_some_iff.1 hdecimal
    simp only [decimal?, Option.bind_eq_bind, Option.bind_eq_some_iff] at hk
    obtain ⟨ds, hds, -⟩ := hk
    exact ⟨fun c hc => isDigit_of_digit? (hall c hc) (digit?_of_digits? hds c hc),
      Int.natCast_nonneg k⟩
  · -- It is an octal number behind a zero.
    simp only [leadingZero?, Option.bind_eq_bind, Option.bind_eq_some_iff] at hoctal
    obtain ⟨ds, hds, hvalue⟩ := hoctal
    refine ⟨fun c hc => isDigit_of_decimalValue? (hall c hc) (isSome_of_mapM hds c hc), ?_⟩
    split at hvalue
    · obtain rfl := Option.some.inj hvalue
      exact Int.natCast_nonneg _
    · cases hvalue

/-! ### Values -/

section Values

variable {c : Char} (hall : ∀ c ∈ cs, isDigit c = true)

theorem digit?_of_isDigit (h : isDigit c = true) : digit? 10 c = some (c.toNat - 0x30) := by
  have hbounds := toNat_of_isDigit h
  simp only [digit?, if_pos hbounds, Option.filter_some]
  exact if_pos (by simp; omega)

theorem decimalValue?_of_isDigit (h : isDigit c = true) :
    Text.decimalValue? c = some (c.toNat - 0x30) := by
  have hbounds := toNat_of_isDigit h
  rw [Text.decimalValue?, Text.decimalZeros, List.find?_cons_of_pos]
  · rfl
  · simp
    omega

/-- Adding up the values of digits is what the standard library does with the digits themselves. -/
theorem ofDigits_map (base : Nat) (cs : List Char) :
    ofDigits base (cs.map fun c => c.toNat - 0x30) = Nat.ofDigitChars base cs 0 := by
  rw [ofDigits, List.foldl_map, Nat.ofDigitChars_eq_foldl]
  simp only [Nat.mul_comm base]
  rfl

include hall

theorem denotes_of_isDigit : Denotes 10 cs (Nat.ofDigitChars 10 cs 0) := by
  have hds : List.Forall₂ (fun c d => digit? 10 c = some d) cs (cs.map fun c => c.toNat - 0x30) := by
    rw [List.forall₂_map_right_iff, List.forall₂_same]
    exact fun c hc => digit?_of_isDigit (hall c hc)
  exact ⟨_, hds, ofDigits_map 10 cs⟩

theorem leadingZero?_of_isDigit (hlength : 1 < cs.length) (hhead : cs.head? = some '0') :
    leadingZero? cs = if (cs.map fun c => c.toNat - 0x30).all (· < 8) then
      some (Int.ofNat (Nat.ofDigitChars 8 cs 0)) else none := by
  rw [leadingZero?, mapM_of_forall fun c hc => decimalValue?_of_isDigit (hall c hc)]
  simp only [Option.bind_eq_bind, Option.bind_some, hlength, hhead, true_and, ofDigits_map]

theorem isRun_of_isDigit (hne : cs ≠ []) : IsRun isDigit isNumberChar cs := by
  cases cs with
  | nil => exact absurd rfl hne
  | cons c cs =>
    refine ⟨hall c List.mem_cons_self, fun d hd => ?_⟩
    exact isNumberChar_of_isDigit (hall d (List.mem_cons_of_mem c hd))

end Values

theorem ofDigitChars_of_zeros (base : Nat) (h : ∀ c ∈ cs, c = '0') :
    Nat.ofDigitChars base cs 0 = 0 := by
  rw [List.eq_replicate_of_mem h, Nat.ofDigitChars_replicate_zero, Nat.mul_zero]

theorem ofDigitChars_pos {base m : Nat} (hbase : 0 < base)
    (h : 0 < m ∨ ∃ c ∈ cs, 0x30 < c.toNat) : 0 < Nat.ofDigitChars base cs m := by
  induction cs generalizing m with
  | nil => simpa using h
  | cons c cs ih =>
    rw [Nat.ofDigitChars_cons]
    apply ih
    obtain hm | ⟨d, hd, hpos⟩ := h
    · exact .inl (Nat.add_pos_left (Nat.mul_pos hbase hm) _)
    · obtain rfl | hd := List.mem_cons.1 hd
      · exact .inl (Nat.add_pos_right _ (Nat.sub_pos_of_lt hpos))
      · exact .inr ⟨d, hd, hpos⟩

theorem one_lt_length (hhead : cs.head? = some '0') (h : ∃ c ∈ cs, c ≠ '0') : 1 < cs.length := by
  obtain ⟨c, hc, hzero⟩ := h
  cases cs with
  | nil => cases hhead
  | cons d cs =>
    obtain rfl : d = '0' := Option.some.inj hhead
    have hrest : c ∈ cs := (List.mem_cons.1 hc).resolve_left hzero
    exact Nat.succ_lt_succ (List.length_pos_of_mem hrest)

section Number

variable (hall : ∀ c ∈ cs, isDigit c = true)
include hall

/-- Without a zero in front, digits are decimal, as many as there may be. -/
theorem number?_bind_bounded (hne : cs ≠ []) (hhead : cs.head? ≠ some '0') :
    (number? cs).bind bounded = bounded (Nat.ofDigitChars 10 cs 0) := by
  rw [number?, plain?_of_isRun (isRun_of_isDigit hall hne), leadingZero?_of_head hhead]
  obtain hread | ⟨hread, hlt⟩ := (Spread.self hne).decimal?_eq_or (denotes_of_isDigit hall) hhead
  · rw [hread]
    rfl
  · rw [hread, bounded_of_lt (by simpa using hlt)]
    rfl

/-- Zeros are decimal if they are not too many, and octal otherwise. -/
theorem number?_of_zeros (hne : cs ≠ []) (hzeros : ∀ c ∈ cs, c = '0') : number? cs = some 0 := by
  have hhead : cs.head? = some '0' := by
    rw [List.head?_eq_some_head hne, hzeros _ (List.head_mem hne)]
  rw [number?, plain?_of_isRun (isRun_of_isDigit hall hne),
    (Spread.self hne).decimal?_eq (denotes_of_isDigit hall), ofDigitChars_of_zeros 10 hzeros]
  split_ifs with hlength hzero
  · have hsmall : (cs.map fun c => c.toNat - 0x30).all (· < 8) = true := by
      rw [List.eq_replicate_of_mem hzeros]
      simp
    rw [leadingZero?_of_isDigit hall (lt_trans (by decide) hlength) hhead, if_pos hsmall,
      ofDigitChars_of_zeros 8 hzeros]
    rfl
  · exact absurd rfl hzero.2
  · rfl

/-- Behind a zero, digits with another one among them are no decimal number. -/
theorem number?_of_leadingZero (hhead : cs.head? = some '0') (h : ∃ c ∈ cs, c ≠ '0') :
    number? cs = leadingZero? cs := by
  obtain ⟨c, hc, hzero⟩ := h
  have hne : cs ≠ [] := List.ne_nil_of_mem hc
  have hpos : 0 < Nat.ofDigitChars 10 cs 0 := by
    refine ofDigitChars_pos (by decide) (.inr ⟨c, hc, ?_⟩)
    have hlow := (toNat_of_isDigit (hall c hc)).1
    exact lt_of_le_of_ne hlow fun heq => hzero (Char.toNat_inj.1 heq.symm)
  rw [number?, plain?_of_isRun (isRun_of_isDigit hall hne),
    (Spread.self hne).decimal?_eq (denotes_of_isDigit hall)]
  split_ifs with hlength hcond
  · rfl
  · rfl
  · exact absurd ⟨hhead, hpos.ne'⟩ hcond

theorem all_lt_eight_iff :
    (cs.map fun c => c.toNat - 0x30).all (· < 8) = true ↔ ∀ c ∈ cs, c < '8' := by
  simp only [List.all_map, List.all_eq_true, Function.comp_apply, decide_eq_true_eq]
  refine forall₂_congr fun c hc => ?_
  have hbounds := toNat_of_isDigit (hall c hc)
  have hlt : c < '8' ↔ c.toNat < 0x38 := Iff.rfl
  rw [hlt]
  omega

/-- They are octal if all of them are octal digits. -/
theorem number?_of_octal (hhead : cs.head? = some '0') (h : ∃ c ∈ cs, c ≠ '0')
    (hoctal : ∀ c ∈ cs, c < '8') : number? cs = some ↑(Nat.ofDigitChars 8 cs 0) := by
  rw [number?_of_leadingZero hall hhead h,
    leadingZero?_of_isDigit hall (one_lt_length hhead h) hhead,
    if_pos ((all_lt_eight_iff hall).2 hoctal)]
  rfl

/-- And nothing otherwise. -/
theorem number?_of_not_octal (hhead : cs.head? = some '0') (h : ∃ c ∈ cs, '8' ≤ c) :
    number? cs = none := by
  obtain ⟨c, hc, hle⟩ := h
  have hzero : ∃ c ∈ cs, c ≠ '0' := by
    refine ⟨c, hc, ?_⟩
    rintro rfl
    exact absurd hle (by decide)
  rw [number?_of_leadingZero hall hhead hzero,
    leadingZero?_of_isDigit hall (one_lt_length hhead hzero) hhead,
    if_neg fun hsmall => Char.not_lt.2 hle ((all_lt_eight_iff hall).1 hsmall c hc)]

end Number

/-! ### The value of a literal -/

/-- The scanner yields a number with this literal, in some text. -/
def Scanned (literal : String) : Prop :=
  ∃ source, ∃ t ∈ tokenize source, t.kind = .int ∧ t.literal = literal

/-- The literals of the scanner's numbers: a digit, and digits and dots behind it. -/
theorem scanned_iff {literal : String} :
    Scanned literal ↔ IsRun isDigit isNumberChar literal.toList := by
  constructor
  · rintro ⟨source, t, ht, hk, rfl⟩
    have hlexical := lexical_of_mem_toList (Cursor.ofString source) t ht (by rw [hk]; decide)
    have hliteral := Token.lexical_iff.1 hlexical
    rw [hk] at hliteral
    exact hliteral
  · intro h
    have hlexical : ∀ t ∈ [(⟨.int, literal, 0, 0⟩ : Token)], t.Lexical :=
      List.forall_mem_singleton.2 (Token.lexical_of_number h rfl)
    obtain ⟨source, hscan⟩ := exists_tokenize_of_lexical hlexical
    obtain ⟨t, ts, hlooks, -, hts⟩ := List.forall₂_cons_right_iff.1 hscan
    refine ⟨source, t, List.dropLast_subset _ ?_, hlooks.1, hlooks.2⟩
    rw [hts]
    exact List.mem_cons_self

/-- What digits and dots denote. -/
structure HasValue (cs : List Char) (value : Option Int) : Prop where
  /-- With a dot among them, nothing. -/
  dotted : '.' ∈ cs → value = none
  /-- Without a zero in front, and if there are only zeros, a decimal number that is in range. -/
  decimal : '.' ∉ cs → (cs.head? ≠ some '0' ∨ ∀ c ∈ cs, c = '0') →
    value = bounded (Nat.ofDigitChars 10 cs 0)
  /-- Behind a zero, with another digit among them, an octal number that is in range. -/
  octal : '.' ∉ cs → cs.head? = some '0' → (∃ c ∈ cs, c ≠ '0') → (∀ c ∈ cs, c < '8') →
    value = bounded (Nat.ofDigitChars 8 cs 0)
  /-- With a digit among them that is not octal, nothing. -/
  notOctal : '.' ∉ cs → cs.head? = some '0' → (∃ c ∈ cs, '8' ≤ c) → value = none

/-- **The value of a number of the scanner.** The literals of such numbers are the texts of a digit
and then digits and dots, of any length, and each has the value that its characters give it. The
limit on the number of decimal digits does not appear in this: it makes no difference. -/
theorem value?_of_scanned (literal : String) :
    (Scanned literal ↔ IsRun isDigit isNumberChar literal.toList) ∧
      (Scanned literal → HasValue literal.toList (value? literal)) := by
  refine ⟨scanned_iff, fun hscanned => ?_⟩
  have hrun := scanned_iff.1 hscanned
  have hall (hdot : '.' ∉ literal.toList) : ∀ c ∈ literal.toList, isDigit c = true := by
    intro c hc
    refine ((isNumberChar_iff c).1 (isNumberChar_of_isRun hrun c hc)).resolve_right ?_
    rintro rfl
    exact hdot hc
  have hne : literal.toList ≠ [] := by
    obtain ⟨c, cs, hcs, -⟩ := hrun.exists_cons
    rw [hcs]
    exact List.cons_ne_nil c cs
  rw [value?_eq_bind]
  constructor
  case dotted =>
    intro hdot
    cases hn : number? literal.toList with
    | none => rfl
    | some n => exact absurd ((isDigit_of_number? hrun hn).1 '.' hdot) (by decide)
  case decimal =>
    rintro hdot (hhead | hzeros)
    · exact number?_bind_bounded (hall hdot) hne hhead
    · rw [number?_of_zeros (hall hdot) hne hzeros, ofDigitChars_of_zeros 10 hzeros]
      rfl
  case octal =>
    intro hdot hhead hzero hoctal
    rw [number?_of_octal (hall hdot) hhead hzero hoctal]
    rfl
  case notOctal =>
    intro hdot hhead hbig
    rw [number?_of_not_octal (hall hdot) hhead hbig]
    rfl

/-- A text of so many zeros. -/
def zeros (n : Nat) : String :=
  String.ofList (List.replicate n '0')

/-- One zero more than a decimal number may have digits. -/
theorem value?_of_scanned_zeros :
    maxDecimalDigits < 4301 ∧ Scanned (zeros 4301) ∧ value? (zeros 4301) = some 0 := by
  have hany (n : Nat) (hn : 0 < n) : Scanned (zeros n) ∧ value? (zeros n) = some 0 := by
    have hzeros : ∀ c ∈ (zeros n).toList, c = '0' := by
      rw [zeros, String.toList_ofList]
      exact fun c hc => List.eq_of_mem_replicate hc
    have hrun : IsRun isDigit isNumberChar (zeros n).toList := by
      refine isRun_of_isDigit (fun c hc => hzeros c hc ▸ rfl) (List.ne_nil_of_length_pos ?_)
      rwa [zeros, String.toList_ofList, List.length_replicate]
    have hdot : '.' ∉ (zeros n).toList := fun hmem => absurd (hzeros '.' hmem) (by decide)
    obtain ⟨hscanned, hvalue⟩ := value?_of_scanned (zeros n)
    have hdecimal := (hvalue (hscanned.2 hrun)).decimal hdot (.inr hzeros)
    rw [ofDigitChars_of_zeros 10 hzeros] at hdecimal
    exact ⟨hscanned.2 hrun, hdecimal⟩
  exact ⟨by decide, hany 4301 (by decide)⟩

end MonkeySyntax.Numeral
