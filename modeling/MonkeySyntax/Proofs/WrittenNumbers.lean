import MonkeySyntax.Proofs.Numerals

/-!
# Numbers and their notations

An integer can be written in decimal, hexadecimal, octal and binary notation, with and without a
sign, and with underscores between the digits (`Numeral.Writes`). All of these are read back as the
integer if it is in range, and as nothing if it is not (`Numeral.value?_of_writes`).

The notations overlap in the zeros that they begin with. Where a letter follows the zero, the base
is announced. A decimal number begins with a zero only if it is zero, which no further digit can
follow. What is left is a zero with digits behind it; that is no decimal number, and is read as
octal in a second attempt. The second attempt is made for decimal numbers too, if they have too many
digits for the first, and fails for want of a zero.
-/

namespace MonkeySyntax.Numeral

open Scanner

variable {base n : Nat} {letter : Char} {cs ds text : List Char}

/-! ### Notations -/

/-- The notations of a natural number without a sign. -/
inductive WritesUnsigned (n : Nat) : (text : List Char) → Prop where
  /-- Decimal digits. -/
  | decimal {text : List Char} (h : Spread (Nat.toDigits 10 n) text) : WritesUnsigned n text
  /-- The announcement of a base, and then any number of zeros and the digits in that base, with
  small or capital letters among them. -/
  | announced {letter : Char} {base : Nat} {ds text : List Char}
      (hbase : (letter, base) ∈ announcements) (zeros : Nat)
      (hds : ds.map Char.toLower = Nat.toDigits base n)
      (h : Spread (List.replicate zeros '0' ++ ds) text) : WritesUnsigned n ('0' :: letter :: text)
  /-- The same with an underscore behind the announcement. -/
  | apart {letter : Char} {base : Nat} {ds text : List Char}
      (hbase : (letter, base) ∈ announcements) (zeros : Nat)
      (hds : ds.map Char.toLower = Nat.toDigits base n)
      (h : Spread (List.replicate zeros '0' ++ ds) text) :
      WritesUnsigned n ('0' :: letter :: '_' :: text)

/-- The notations of an integer. -/
inductive Writes : (i : Int) → (text : List Char) → Prop where
  | plain {n : Nat} {text : List Char} (h : WritesUnsigned n text) : Writes n text
  | plus {n : Nat} {text : List Char} (h : WritesUnsigned n text) : Writes n ('+' :: text)
  | minus {n : Nat} {text : List Char} (h : WritesUnsigned n text) : Writes (-n) ('-' :: text)
  /-- Octal digits behind zeros, without a sign or an underscore. -/
  | octal {n zeros : Nat} (hn : 0 < n) (hzeros : 0 < zeros) :
      Writes n (List.replicate zeros '0' ++ Nat.toDigits 8 n)

/-! ### Numbers without a sign -/

theorem base_bounds (h : (letter, base) ∈ announcements) : 1 < base ∧ base ≤ 16 := by
  have hall : ∀ a ∈ announcements, 1 < a.2 ∧ a.2 ≤ 16 := by decide
  exact hall _ h

theorem denotes_decimal (n : Nat) : Denotes 10 (Nat.toDigits 10 n) n :=
  denotes_toDigits (by decide) (by decide) n

/-- The digits behind an announcement denote the number. -/
theorem denotes_of_announced (hbase : (letter, base) ∈ announcements)
    (hds : ds.map Char.toLower = Nat.toDigits base n) (zeros : Nat) :
    Denotes base (List.replicate zeros '0' ++ ds) n := by
  obtain ⟨hlow, hhigh⟩ := base_bounds hbase
  have hdigits : Denotes base ds n := .of_map_toLower (hds ▸ denotes_toDigits hlow hhigh n)
  exact hdigits.zeros (by omega) zeros

theorem head?_toDigits_ne (hn : 0 < n) : (Nat.toDigits 10 n).head? ≠ some '0' := by
  induction n using Nat.base_induction 10 (by decide) with
  | single d hd =>
    rw [Nat.toDigits_of_lt_base hd, List.head?_cons]
    simpa using hn.ne'
  | digit n d hd hpos ih =>
    rw [← Nat.toDigits_append_toDigits (by decide) hpos hd,
      List.head?_append_of_ne_nil _ Nat.toDigits_ne_nil]
    exact ih hpos

/-- No letter that announces a base stands in a decimal number. -/
theorem Spread.notMem_of_announcement (h : Spread cs text) (hn : Denotes 10 cs n) :
    ∀ a ∈ announcements, a.1 ∉ text := by
  intro a ha hmem
  have hnone : ∀ a ∈ announcements, digit? 10 a.1 = none ∧ a.1 ≠ '_' := by decide
  obtain hmem | heq := h.eq_underscore_of_mem hmem
  · exact absurd (hn.isSome_digit? hmem) (by simp [(hnone a ha).1])
  · exact (hnone a ha).2 heq

theorem unsigned?_of_writes (h : WritesUnsigned n text) :
    unsigned? text = some n ∨
      unsigned? text = none ∧ text.head? ≠ some '0' ∧ 0x8000000000000000 < n := by
  cases h with
  | decimal h =>
    have hn := denotes_decimal n
    rw [unsigned?_of_notMem (h.notMem_of_announcement hn)]
    obtain rfl | hpos := Nat.eq_zero_or_pos n
    · left
      rw [h.decimal?_eq hn, Nat.toDigits_zero]
      rfl
    · have hhead := head?_toDigits_ne hpos
      exact (h.decimal?_eq_or hn hhead).imp_right fun ⟨hread, hlt⟩ =>
        ⟨hread, h.head?_eq ▸ hhead, hlt⟩
  | announced hbase zeros hds h =>
    left
    rw [unsigned?_of_announced hbase]
    exact (h.announced?_eq (denotes_of_announced hbase hds zeros)).1
  | apart hbase zeros hds h =>
    left
    rw [unsigned?_of_announced hbase]
    exact (h.announced?_eq (denotes_of_announced hbase hds zeros)).2

/-! ### Blanks and signs -/

theorem Spread.isGraphic (h : Spread cs text) (hn : Denotes base cs n) :
    ∀ c ∈ text, IsGraphic c := by
  intro c hc
  obtain hc | rfl := h.eq_underscore_of_mem hc
  · exact isGraphic_of_digit? (hn.isSome_digit? hc)
  · decide

theorem isGraphic_of_announcement (h : (letter, base) ∈ announcements) : IsGraphic letter := by
  have hall : ∀ a ∈ announcements, IsGraphic a.1 := by decide
  exact hall _ h

theorem WritesUnsigned.isGraphic (h : WritesUnsigned n text) : ∀ c ∈ text, IsGraphic c := by
  cases h with
  | decimal h => exact h.isGraphic (denotes_decimal n)
  | announced hbase zeros hds h =>
    simp only [List.forall_mem_cons]
    exact ⟨by decide, isGraphic_of_announcement hbase,
      h.isGraphic (denotes_of_announced hbase hds zeros)⟩
  | apart hbase zeros hds h =>
    simp only [List.forall_mem_cons]
    exact ⟨by decide, isGraphic_of_announcement hbase, by decide,
      h.isGraphic (denotes_of_announced hbase hds zeros)⟩

theorem WritesUnsigned.notMem_signs (h : WritesUnsigned n text) : ∀ c ∈ text.head?, c ∉ signs := by
  cases h with
  | decimal h =>
    intro c hc hsign
    have hnone : signs.all fun c => (digit? 10 c).isNone := by decide
    obtain ⟨d, cs, rest, hcs, rfl⟩ := h.exists_cons
    obtain rfl : d = c := Option.some.inj hc
    have hdigit := (denotes_decimal n).isSome_digit? (hcs ▸ List.mem_cons_self)
    simp [Option.isNone_iff_eq_none.1 (List.all_eq_true.1 hnone d hsign)] at hdigit
  | announced | apart =>
    intro c hc
    obtain rfl : '0' = c := Option.some.inj hc
    decide

/-! ### The value of a notation -/

/-- A number is read with its sign if it is read at all, and if it is not, then it is out of range
whatever its sign. -/
theorem number?_bind_of_signed {rest : List Char} (sign : Nat → Int)
    (hsigned : signed? text = (unsigned? rest).map sign) (habs : ∀ n, (sign n).natAbs = n)
    (hgraphic : ∀ c ∈ text, IsGraphic c) (h : WritesUnsigned n rest)
    (hhead : rest.head? ≠ some '0' → text.head? ≠ some '0') :
    (number? text).bind bounded = bounded (sign n) := by
  rw [number?, plain?_of_isGraphic hgraphic, hsigned]
  obtain hread | ⟨hread, hzero, hlt⟩ := unsigned?_of_writes h
  · rw [hread]
    rfl
  · rw [hread, leadingZero?_of_head (hhead hzero), bounded_of_lt (by rwa [habs])]
    rfl

/-- The digits of an octal number, with a zero in front or not. -/
theorem octal_digits (zeros n : Nat) :
    ∀ c ∈ List.replicate zeros '0' ++ Nat.toDigits 8 n, isDigit c = true ∧ c < '8' := by
  intro c hc
  have hn : Denotes 8 (Nat.toDigits 8 n) n := denotes_toDigits (by decide) (by decide) n
  have hsome := (hn.zeros (by decide) zeros).isSome_digit? hc
  obtain ⟨d, hd⟩ := Option.isSome_iff_exists.1 hsome
  obtain ⟨hvalue, hlt⟩ := Option.filter_eq_some_iff.1 hd
  have hbounds : 0x30 ≤ c.toNat ∧ c.toNat < 0x38 := by grind
  have hdigit : isDigit c = true ↔ 0x30 ≤ c.toNat ∧ c.toNat ≤ 0x39 := by
    simp only [isDigit, Bool.and_eq_true, decide_eq_true_eq]
    rfl
  exact ⟨hdigit.2 ⟨hbounds.1, by omega⟩, hbounds.2⟩

/-- **Reading undoes writing.** An integer in any of its notations is read as that integer, if it
has 64 bits with a sign, and as nothing if it has more. -/
theorem value?_of_writes {i : Int} {text : String} (h : Writes i text.toList) :
    value? text = if -0x8000000000000000 ≤ i ∧ i ≤ 0x7FFFFFFFFFFFFFFF then some i else none := by
  rw [value?_eq_bind]
  generalize text.toList = cs at h
  show _ = bounded i
  cases h with
  | plain h =>
    exact number?_bind_of_signed Int.ofNat (signed?_of_forall_ne h.notMem_signs) Int.natAbs_natCast
      h.isGraphic h id
  | plus h =>
    have hgraphic := List.forall_mem_cons.2 ⟨show IsGraphic '+' by decide, h.isGraphic⟩
    exact number?_bind_of_signed Int.ofNat rfl Int.natAbs_natCast hgraphic h fun _ => by simp
  | minus h =>
    have hgraphic := List.forall_mem_cons.2 ⟨show IsGraphic '-' by decide, h.isGraphic⟩
    refine number?_bind_of_signed (fun n => -Int.ofNat n) rfl (fun n => ?_) hgraphic h
      fun _ => by simp
    exact (Int.natAbs_neg _).trans (Int.natAbs_natCast n)
  | @octal n zeros hn hzeros =>
    have hdigits := octal_digits zeros n
    have hvalue : Nat.ofDigitChars 8 (List.replicate zeros '0' ++ Nat.toDigits 8 n) 0 = n := by
      rw [Nat.ofDigitChars_append, Nat.ofDigitChars_replicate_zero, Nat.mul_zero,
        Nat.ofDigitChars_toDigits (by decide) (by decide)]
    have hhead : (List.replicate zeros '0' ++ Nat.toDigits 8 n).head? = some '0' := by
      rw [← Nat.succ_pred_eq_of_pos hzeros, List.replicate_succ]
      rfl
    have hzero : ∃ c ∈ List.replicate zeros '0' ++ Nat.toDigits 8 n, c ≠ '0' := by
      by_contra hall
      push Not at hall
      exact hn.ne' (hvalue ▸ ofDigitChars_of_zeros 8 hall)
    rw [number?_of_octal (fun c hc => (hdigits c hc).1) hhead hzero fun c hc => (hdigits c hc).2,
      hvalue]
    rfl

/-- The greatest number in range, in hexadecimal digits and with all that may stand between them, and
the number below the least, in decimal digits. -/
theorem value?_of_writes_bounds :
    (Writes 0x7FFFFFFFFFFFFFFF "+0X_0_7FfFffff_FFFFFFFF".toList ∧
      value? "+0X_0_7FfFffff_FFFFFFFF" = some 0x7FFFFFFFFFFFFFFF) ∧
    Writes (-0x8000000000000001) "-9_223372036854775809".toList ∧
      value? "-9_223372036854775809" = none := by
  have hgreatest : Writes 0x7FFFFFFFFFFFFFFF "+0X_0_7FfFffff_FFFFFFFF".toList := by
    refine .plus (n := 0x7FFFFFFFFFFFFFFF) (@WritesUnsigned.apart _ 'X' 16
      "7FfFffffFFFFFFFF".toList _ (by decide) 1 rfl ?_)
    show Spread _ ['0', '_', '7', 'F', 'f', 'F', 'f', 'f', 'f', 'f', '_', 'F', 'F', 'F', 'F', 'F', 'F',
      'F', 'F']
    repeat first | exact .single _ | apply Spread.underscore | apply Spread.next
  have hbeyond : Writes (-0x8000000000000001) "-9_223372036854775809".toList := by
    refine .minus (n := 0x8000000000000001) (.decimal ?_)
    show Spread _ ['9', '_', '2', '2', '3', '3', '7', '2', '0', '3', '6', '8', '5', '4', '7', '7', '5',
      '8', '0', '9']
    repeat first | exact .single _ | apply Spread.underscore | apply Spread.next
  exact ⟨⟨hgreatest, value?_of_writes hgreatest⟩, hbeyond, value?_of_writes hbeyond⟩

end MonkeySyntax.Numeral
