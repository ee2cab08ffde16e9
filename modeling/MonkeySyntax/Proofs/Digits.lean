import Mathlib.Algebra.Order.Ring.Nat
import Mathlib.Data.List.Forall2
import MonkeySyntax.Numeral

/-!
# Digits, signs and bases

A number is written down as digits, and read back in three steps: the characters are taken as values
of digits, underscores between them are passed over, and the values are added up. `Denotes` says
what the digits of a text add up to, with no regard to underscores, and `Spread` says where
underscores may stand, with no regard to numbers. The readers of digits, with and without an
announced base, agree with the two (`Spread.digits?_eq`, `Spread.announced?_eq`,
`Spread.decimal?_eq`). The standard library's way from a number to its digits, `Nat.toDigits`, leads
to digits that denote it (`denotes_toDigits`).

A decimal number that is not read for having too many digits is out of range as well
(`Denotes.lt_of_length`). So where the digits do not begin with a zero, the limit on their number
decides nothing (`Spread.decimal?_eq_or`).

Around the digits there may be blanks, a sign and an announced base. Each is a question of single
characters, and a text without them is read by its digits alone.

The limit holds for writing as well: a number of 64 bits can always be written, and one from ten to
the power of the limit on cannot.
-/

namespace MonkeySyntax.Numeral

variable {base n d : Nat} {c : Char} {cs text : List Char}

/-! ### Single digits -/

/-- A digit of one base is one of every other base that has room for it. -/
theorem digit?_of_lt {b : Nat} (h : digit? b c = some d) (hd : d < base) :
    digit? base c = some d := by
  obtain ⟨hvalue, -⟩ := Option.filter_eq_some_iff.1 h
  exact Option.filter_eq_some_iff.2 ⟨hvalue, by simpa using hd⟩

theorem digit?_digitChar (hd : d < base) (hbase : base ≤ 16) :
    digit? base (Nat.digitChar d) = some d := by
  have hall : ∀ d < 16, digit? 16 (Nat.digitChar d) = some d := by decide
  exact digit?_of_lt (hall d (by omega)) hd

theorem toNat_toLower (c : Char) :
    c.toLower.toNat = if 0x41 ≤ c.toNat ∧ c.toNat ≤ 0x5A then c.toNat + 0x20 else c.toNat := by
  have hcapital : (c.val ≥ 'A'.val ∧ c.val ≤ 'Z'.val) ↔ 0x41 ≤ c.toNat ∧ c.toNat ≤ 0x5A := by
    simp only [ge_iff_le, UInt32.le_iff_toNat_le, Char.toNat_val]
    rfl
  unfold Char.toLower
  split
  · next h =>
    have hle : c.toNat ≤ 0x5A := (hcapital.1 h).2
    rw [if_pos (hcapital.1 h), ← Char.toNat_val, UInt32.toNat_add, Char.toNat_val]
    exact Nat.mod_eq_of_lt (show c.toNat + 0x20 < 0x100000000 by omega)
  · next h => rw [if_neg (mt hcapital.2 h)]

/-- A capital letter is the same digit as the small one. -/
theorem digit?_toLower (base : Nat) (c : Char) : digit? base c.toLower = digit? base c := by
  have hn := toNat_toLower c
  split_ifs at hn with hcapital
  · simp only [digit?, hn]
    rw [if_neg (by omega), if_neg (by omega), if_pos (by omega), if_neg (by omega),
      if_pos hcapital, show c.toNat + 0x20 - 0x57 = c.toNat - 0x37 by omega]
  · simp only [digit?, hn]

/-- No letter is the digit zero. -/
theorem eq_zero_of_digit? (h : digit? base c = some 0) : c = '0' := by
  obtain ⟨hvalue, -⟩ := Option.filter_eq_some_iff.1 h
  apply Char.toNat_inj.1
  show c.toNat = 0x30
  grind

theorem ne_underscore_of_digit? (h : digit? base c = some d) : c ≠ '_' := by
  rintro rfl
  have hnone : digit? base '_' = none := rfl
  rw [hnone] at h
  cases h

/-- A text of digits in a given base has nothing in it but digits and underscores. -/
theorem digit?_of_digits? {base : Nat} {ds : List Nat} (h : digits? base cs = some ds) :
    ∀ c ∈ cs, c = '_' ∨ (digit? base c).isSome := by
  fun_induction digits? base cs generalizing ds with
  | case1 => cases h
  | case2 c =>
    obtain ⟨d, hd, -⟩ := Option.map_eq_some_iff.1 h
    simp [hd]
  | case3 c rest d ds' hds hd ih => simpa [hd] using ih hds
  | case4 => cases h
  | case5 c rest _ _ d ds' hds hd ih => simpa [hd] using ih hds
  | case6 => cases h

/-! ### What digits denote -/

/-- The characters are digits, and the number that they write is `n`. -/
def Denotes (base : Nat) (cs : List Char) (n : Nat) : Prop :=
  ∃ ds, List.Forall₂ (fun c d => digit? base c = some d) cs ds ∧ ofDigits base ds = n

theorem denotes_nil (base : Nat) : Denotes base [] 0 :=
  ⟨[], .nil, rfl⟩

theorem Denotes.isSome_digit? (h : Denotes base cs n) (hc : c ∈ cs) : (digit? base c).isSome := by
  obtain ⟨ds, hds, -⟩ := h
  induction hds with
  | nil => exact absurd hc List.not_mem_nil
  | cons hd _ ih =>
    obtain rfl | hc := List.mem_cons.1 hc
    · exact Option.isSome_of_eq_some hd
    · exact ih hc

/-- One more digit at the end. -/
theorem Denotes.concat (h : Denotes base cs n) (hc : digit? base c = some d) :
    Denotes base (cs ++ [c]) (n * base + d) := by
  obtain ⟨ds, hds, rfl⟩ := h
  exact ⟨ds ++ [d], List.rel_append hds (.cons hc .nil), ofDigits_concat base ds d⟩

/-- Zeros in front change nothing. -/
theorem Denotes.zeros (h : Denotes base cs n) (hbase : 0 < base) (zeros : Nat) :
    Denotes base (List.replicate zeros '0' ++ cs) n := by
  induction zeros with
  | zero => exact h
  | succ zeros ih =>
    obtain ⟨ds, hds, hn⟩ := ih
    have hzero : digit? base '0' = some 0 := digit?_of_lt (b := 1) (by decide) hbase
    refine ⟨0 :: ds, .cons hzero hds, ?_⟩
    rw [← hn, ofDigits, ofDigits, List.foldl_cons, Nat.zero_mul]

theorem Denotes.of_map_toLower (h : Denotes base (cs.map Char.toLower) n) : Denotes base cs n := by
  obtain ⟨ds, hds, hn⟩ := h
  refine ⟨ds, (List.forall₂_map_left_iff.1 hds).imp fun c d hd => ?_, hn⟩
  rwa [digit?_toLower] at hd

/-- **The digits of a number denote it.** -/
theorem denotes_toDigits (hlow : 1 < base) (hhigh : base ≤ 16) (n : Nat) :
    Denotes base (Nat.toDigits base n) n := by
  induction n using Nat.base_induction base hlow with
  | single d hd =>
    have h := (denotes_nil base).concat (digit?_digitChar hd hhigh)
    rwa [Nat.zero_mul, Nat.zero_add, List.nil_append, ← Nat.toDigits_of_lt_base hd] at h
  | digit n d hd hn ih =>
    have h := ih.concat (digit?_digitChar hd hhigh)
    rwa [← Nat.toDigits_of_lt_base hd, Nat.mul_comm, Nat.toDigits_append_toDigits hlow hn hd] at h

theorem pow_mul_le_foldl (base m : Nat) (ds : List Nat) :
    base ^ ds.length * m ≤ ds.foldl (fun n d => n * base + d) m := by
  induction ds generalizing m with
  | nil => simp
  | cons d ds ih =>
    calc base ^ (d :: ds).length * m = base ^ ds.length * (m * base) := by
          rw [List.length_cons, pow_succ, mul_assoc, mul_comm base m]
      _ ≤ base ^ ds.length * (m * base + d) := Nat.mul_le_mul_left _ (Nat.le_add_right _ _)
      _ ≤ (d :: ds).foldl (fun n d => n * base + d) m := ih _

/-- A decimal number with so many digits is beyond all numbers of 64 bits. -/
theorem Denotes.lt_of_length (h : Denotes 10 cs n) (hhead : cs.head? ≠ some '0')
    (hlength : 19 < cs.length) : 0x8000000000000000 < n := by
  obtain ⟨ds, hds, rfl⟩ := h
  cases hds with
  | nil => exact absurd hlength (by simp)
  | @cons c d cs ds hd hds =>
    have hpos : 0 < d := by
      refine Nat.pos_of_ne_zero fun hzero => hhead ?_
      subst hzero
      rw [eq_zero_of_digit? hd]
      rfl
    have hlen : 19 ≤ ds.length := by
      rw [← hds.length_eq]
      exact Nat.lt_succ_iff.1 hlength
    calc 0x8000000000000000 < 10 ^ 19 * 1 := by decide
      _ ≤ 10 ^ ds.length * d := Nat.mul_le_mul (Nat.pow_le_pow_right (by decide) hlen) hpos
      _ ≤ ofDigits 10 (d :: ds) := by
        rw [ofDigits, List.foldl_cons, Nat.zero_mul, Nat.zero_add]
        exact pow_mul_le_foldl 10 d ds

/-! ### Underscores -/

/-- The text consists of the characters, with at most one underscore between any two of them. -/
inductive Spread : (cs text : List Char) → Prop where
  | single (c : Char) : Spread [c] [c]
  | next (c : Char) {cs text : List Char} (h : Spread cs text) : Spread (c :: cs) (c :: text)
  | underscore (c : Char) {cs text : List Char} (h : Spread cs text) :
      Spread (c :: cs) (c :: '_' :: text)

namespace Spread

/-- There need not be any underscore. -/
theorem self (h : cs ≠ []) : Spread cs cs := by
  induction cs with
  | nil => exact absurd rfl h
  | cons c cs ih =>
    cases cs with
    | nil => exact .single c
    | cons d cs => exact .next c (ih (List.cons_ne_nil d cs))

theorem exists_cons (h : Spread cs text) : ∃ c cs' rest, cs = c :: cs' ∧ text = c :: rest := by
  cases h <;> exact ⟨_, _, _, rfl, rfl⟩

theorem head?_eq (h : Spread cs text) : text.head? = cs.head? := by
  obtain ⟨c, cs', rest, rfl, rfl⟩ := h.exists_cons
  rfl

theorem eq_underscore_of_mem (h : Spread cs text) (hc : c ∈ text) : c ∈ cs ∨ c = '_' := by
  induction h with
  | single => exact .inl hc
  | next d _ ih =>
    obtain rfl | hc := List.mem_cons.1 hc
    · exact .inl List.mem_cons_self
    · exact (ih hc).imp_left (List.mem_cons_of_mem d)
  | underscore d _ ih =>
    obtain rfl | hc := List.mem_cons.1 hc
    · exact .inl List.mem_cons_self
    · obtain rfl | hc := List.mem_cons.1 hc
      · exact .inr rfl
      · exact (ih hc).imp_left (List.mem_cons_of_mem d)

/-- The digits are read one by one, and the underscores between them passed over. -/
theorem digits?_eq {ds : List Nat} (h : Spread cs text)
    (hds : List.Forall₂ (fun c d => digit? base c = some d) cs ds) :
    digits? base text = some ds := by
  induction h generalizing ds with
  | single c =>
    obtain ⟨d, ds, hd, hnil, rfl⟩ := List.forall₂_cons_left_iff.1 hds
    cases hnil
    rw [digits?, hd]
    rfl
  | @next c cs text h ih =>
    obtain ⟨d, ds, hd, htail, rfl⟩ := List.forall₂_cons_left_iff.1 hds
    -- What follows begins with a digit, and that is no underscore.
    obtain ⟨e, cs, rest, rfl, rfl⟩ := h.exists_cons
    obtain ⟨_, _, he, -, -⟩ := List.forall₂_cons_left_iff.1 htail
    rw [digits?, hd, ih htail]
    · simp
    · simpa using ne_underscore_of_digit? he
  | underscore c h ih =>
    obtain ⟨d, ds, hd, htail, rfl⟩ := List.forall₂_cons_left_iff.1 hds
    rw [digits?, hd, ih htail]

/-- Behind an announced base, an underscore may also stand in front. -/
theorem announced?_eq (h : Spread cs text) (hn : Denotes base cs n) :
    announced? base text = some n ∧ announced? base ('_' :: text) = some n := by
  obtain ⟨ds, hds, rfl⟩ := hn
  have hread := h.digits?_eq hds
  obtain ⟨c, cs, rest, rfl, rfl⟩ := h.exists_cons
  obtain ⟨d, ds', hd, -, -⟩ := List.forall₂_cons_left_iff.1 hds
  constructor
  · rw [announced?, hread, Option.map_some]
    simpa using ne_underscore_of_digit? hd
  · rw [announced?, hread, Option.map_some]

/-- Without one, the digits must not be too many, and the first must not be a zero that changes
nothing. -/
theorem decimal?_eq (h : Spread cs text) (hn : Denotes 10 cs n) :
    decimal? text =
      if maxDecimalDigits < cs.length then none
      else if cs.head? = some '0' ∧ n ≠ 0 then none
      else some n := by
  obtain ⟨ds, hds, rfl⟩ := hn
  rw [decimal?, h.digits?_eq hds, hds.length_eq, h.head?_eq]
  rfl

/-- So a number is read, unless it is out of range. -/
theorem decimal?_eq_or (h : Spread cs text) (hn : Denotes 10 cs n) (hhead : cs.head? ≠ some '0') :
    decimal? text = some n ∨ decimal? text = none ∧ 0x8000000000000000 < n := by
  rw [h.decimal?_eq hn]
  split_ifs with hlength hzero
  · exact .inr ⟨rfl, hn.lt_of_length hhead (lt_trans (by decide) hlength)⟩
  · exact absurd hzero.1 hhead
  · exact .inl rfl

end Spread

/-! ### Blanks -/

/-- A character of ASCII that has a shape of its own: neither a control nor the space. -/
def IsGraphic (c : Char) : Prop :=
  0x20 < c.toNat ∧ c.toNat < 0x7F

instance (c : Char) : Decidable (IsGraphic c) :=
  inferInstanceAs (Decidable (_ ∧ _))

theorem ascii?_of_isGraphic (h : IsGraphic c) : ascii? c = some c := by
  rw [ascii?, if_pos h.2]

theorem isOuterBlank_of_isGraphic (h : IsGraphic c) : isOuterBlank c = false := by
  have hspace : c ≠ ' ' := by
    rintro rfl
    exact absurd h.1 (by decide)
  have hlow := h.1
  simp only [isOuterBlank, Bool.or_eq_false_iff, Bool.and_eq_false_iff, decide_eq_false_iff_not,
    beq_eq_false_iff_ne]
  exact ⟨.inr (by omega), hspace⟩

theorem isGraphic_of_digit? (h : (digit? base c).isSome) : IsGraphic c := by
  obtain ⟨d, hd⟩ := Option.isSome_iff_exists.1 h
  obtain ⟨hvalue, -⟩ := Option.filter_eq_some_iff.1 hd
  unfold IsGraphic
  grind

theorem mapM_of_forall {β : Type} {f : Char → Option β} {g : Char → β}
    (h : ∀ c ∈ cs, f c = some (g c)) : cs.mapM f = some (cs.map g) := by
  induction cs with
  | nil => rfl
  | cons c cs ih =>
    rw [List.mapM_cons, h c List.mem_cons_self, ih fun d hd => h d (List.mem_cons_of_mem c hd)]
    rfl

theorem trimList_of_isGraphic (h : ∀ c ∈ cs, IsGraphic c) :
    Text.trimList isOuterBlank cs = cs := by
  have hdrop {ds : List Char} (hds : ∀ c ∈ ds, IsGraphic c) :
      ds.dropWhile isOuterBlank = ds := by
    cases ds with
    | nil => rfl
    | cons c ds =>
      rw [List.dropWhile_cons_of_neg]
      simp [isOuterBlank_of_isGraphic (hds c List.mem_cons_self)]
  rw [Text.trimList, hdrop h, hdrop fun c hc => h c (List.mem_reverse.1 hc), List.reverse_reverse]

/-- A text of graphic characters is taken as it is. -/
theorem plain?_of_isGraphic (h : ∀ c ∈ cs, IsGraphic c) : plain? cs = signed? cs := by
  have hascii : cs.mapM ascii? = some (cs.map id) :=
    mapM_of_forall fun c hc => ascii?_of_isGraphic (h c hc)
  rw [plain?, hascii, List.map_id]
  exact congrArg signed? (trimList_of_isGraphic h)

/-! ### Signs and announced bases -/

/-- The characters that stand for a sign. -/
def signs : List Char :=
  ['+', '-']

/-- The letters that announce a base. -/
def announcements : List (Char × Nat) :=
  [('x', 16), ('X', 16), ('o', 8), ('O', 8), ('b', 2), ('B', 2)]

theorem signed?_of_forall_ne (h : ∀ c ∈ cs.head?, c ∉ signs) :
    signed? cs = (unsigned? cs).map Int.ofNat := by
  unfold signed?
  split
  · exact absurd (by decide) (h '+' rfl)
  · exact absurd (by decide) (h '-' rfl)
  · rfl

theorem unsigned?_of_announced {letter : Char} (h : (letter, base) ∈ announcements) :
    unsigned? ('0' :: letter :: cs) = announced? base cs := by
  simp only [announcements, List.mem_cons, Prod.mk.injEq, List.not_mem_nil, or_false] at h
  obtain ⟨rfl, rfl⟩ | ⟨rfl, rfl⟩ | ⟨rfl, rfl⟩ | ⟨rfl, rfl⟩ | ⟨rfl, rfl⟩ | ⟨rfl, rfl⟩ := h <;> rfl

/-- Where no letter is, no base is announced. -/
theorem unsigned?_of_notMem (h : ∀ a ∈ announcements, a.1 ∉ cs) : unsigned? cs = decimal? cs := by
  unfold unsigned?
  split
  · exact absurd (by simp) (h ('x', 16) (by decide))
  · exact absurd (by simp) (h ('X', 16) (by decide))
  · exact absurd (by simp) (h ('o', 8) (by decide))
  · exact absurd (by simp) (h ('O', 8) (by decide))
  · exact absurd (by simp) (h ('b', 2) (by decide))
  · exact absurd (by simp) (h ('B', 2) (by decide))
  · rfl

/-! ### Octal numbers behind a zero -/

theorem leadingZero?_of_head (h : cs.head? ≠ some '0') : leadingZero? cs = none := by
  rw [leadingZero?]
  cases cs.mapM Text.decimalValue? with
  | none => rfl
  | some ds => exact if_neg fun hcs => h hcs.2.1

/-! ### Range -/

/-- The number, if it is one of 64 bits with a sign. -/
def bounded (n : Int) : Option Int :=
  if -0x8000000000000000 ≤ n ∧ n ≤ 0x7FFFFFFFFFFFFFFF then some n else none

theorem bounded_of_lt {i : Int} (h : 0x8000000000000000 < i.natAbs) : bounded i = none :=
  if_neg (by omega)

theorem value?_eq_bind (text : String) : value? text = (number? text.toList).bind bounded := by
  rw [value?]
  cases number? text.toList with
  | none => rfl
  | some n =>
    rw [Option.filter_some, Option.bind_some, bounded]
    by_cases h : InRange n
    · rw [if_pos (decide_eq_true h)]
      exact (if_pos h).symm
    · rw [if_neg (by simpa using h)]
      exact (if_neg h).symm

/-! ### Writing -/

/-- A number from ten to the power of the limit on takes too many digits. -/
theorem lt_length_toDigits_of_le (h : 10 ^ maxDecimalDigits ≤ n) :
    maxDecimalDigits < (Nat.toDigits 10 n).length := by
  rw [← Nat.not_le, Nat.length_toDigits_le_iff (by decide) (by decide)]
  exact Nat.not_lt_of_le h

/-- An integer of 64 bits does not take too many digits. -/
theorem length_toDigits_le_of_inRange {i : Int} (h : InRange i) :
    (Nat.toDigits 10 i.natAbs).length ≤ maxDecimalDigits := by
  rw [Nat.length_toDigits_le_iff (by decide) (by decide)]
  calc i.natAbs < 10 ^ 19 := by
        unfold InRange at h
        omega
    _ ≤ 10 ^ maxDecimalDigits := Nat.pow_le_pow_right (by decide) (by decide)

end MonkeySyntax.Numeral
