import Mathlib.Tactic.SplitIfs
import MonkeySyntax.Text.Utf8

/-!
# Reading UTF-8 inverts writing it

Bytes are read as text exactly if they are the encoding of one, and then as that text
(`Text.Utf8.decode_eq_ok_iff`). The encoding is the standard library's, which takes a character to
its one to four bytes by dividing its code point; the reader goes the other way and judges each byte
by its range. Both sides agree character by character: the ranges of the first two bytes leave out
just what division never yields, which are the longer ways of writing a code point, the surrogates,
and what lies beyond the last character.
-/

namespace MonkeySyntax.Text.Utf8

/-- The bytes of a text. -/
def encode (cs : List Char) : List UInt8 :=
  cs.flatMap String.utf8EncodeChar

@[simp] theorem encode_nil : encode [] = [] := rfl

@[simp] theorem encode_cons (c : Char) (cs : List Char) :
    encode (c :: cs) = String.utf8EncodeChar c ++ encode cs := rfl

variable {b c d e : UInt8} {low high position : Nat} {rest : List UInt8}

/-! ### First bytes -/

namespace Lead

theorem ofByte_eq_single_iff : ofByte b = .single ↔ b.toNat < 0x80 := by
  simp only [ofByte]
  grind

theorem ofByte_eq_double_iff : ofByte b = .double ↔ 0xC2 ≤ b.toNat ∧ b.toNat < 0xE0 := by
  simp only [ofByte]
  grind

theorem ofByte_eq_triple_iff : ofByte b = .triple low high ↔
    0xE0 ≤ b.toNat ∧ b.toNat < 0xF0 ∧ low = (if b.toNat = 0xE0 then 0xA0 else 0x80) ∧
      high = (if b.toNat = 0xED then 0x9F else 0xBF) := by
  simp only [ofByte]
  grind

theorem ofByte_eq_quadruple_iff : ofByte b = .quadruple low high ↔
    0xF0 ≤ b.toNat ∧ b.toNat < 0xF5 ∧ low = (if b.toNat = 0xF0 then 0x90 else 0x80) ∧
      high = (if b.toNat = 0xF4 then 0x8F else 0xBF) := by
  simp only [ofByte]
  grind

end Lead

theorem isBetween_iff : isBetween low high b = true ↔ low ≤ b.toNat ∧ b.toNat ≤ high := by
  simp [isBetween]

theorem isContinuation_iff : isContinuation b = true ↔ 0x80 ≤ b.toNat ∧ b.toNat ≤ 0xBF :=
  isBetween_iff

/-- The first two of three bytes: they spell neither what fits in two bytes nor a surrogate. -/
theorem triple_bounds (hb : Lead.ofByte b = .triple low high) (hc : isBetween low high c = true) :
    (0xE0 ≤ b.toNat ∧ b.toNat < 0xF0) ∧ (0x80 ≤ c.toNat ∧ c.toNat ≤ 0xBF) ∧
      (b.toNat = 0xE0 → 0xA0 ≤ c.toNat) ∧ (b.toNat = 0xED → c.toNat ≤ 0x9F) := by
  rw [Lead.ofByte_eq_triple_iff] at hb
  rw [isBetween_iff] at hc
  grind

/-- The first two of four bytes: they spell neither what fits in three bytes nor what lies beyond
the last character. -/
theorem quadruple_bounds (hb : Lead.ofByte b = .quadruple low high)
    (hc : isBetween low high c = true) :
    (0xF0 ≤ b.toNat ∧ b.toNat < 0xF5) ∧ (0x80 ≤ c.toNat ∧ c.toNat ≤ 0xBF) ∧
      (b.toNat = 0xF0 → 0x90 ≤ c.toNat) ∧ (b.toNat = 0xF4 → c.toNat ≤ 0x8F) := by
  rw [Lead.ofByte_eq_quadruple_iff] at hb
  rw [isBetween_iff] at hc
  grind

/-! ### Reading one character -/

theorem decodeFrom_single (hb : Lead.ofByte b = .single) :
    decodeFrom position (b :: rest) = prepend (char1 b) (decodeFrom (position + 1) rest) := by
  rw [decodeFrom.eq_def]
  simp only [hb]

theorem decodeFrom_double (hb : Lead.ofByte b = .double) (hc : isContinuation c = true) :
    decodeFrom position (b :: c :: rest) =
      prepend (char2 b c) (decodeFrom (position + 2) rest) := by
  rw [decodeFrom.eq_def]
  simp only [hb, hc, if_true]

theorem decodeFrom_triple (hb : Lead.ofByte b = .triple low high)
    (hc : isBetween low high c = true) (hd : isContinuation d = true) :
    decodeFrom position (b :: c :: d :: rest) =
      prepend (char3 b c d) (decodeFrom (position + 3) rest) := by
  rw [decodeFrom.eq_def]
  simp [hb, hc, hd]

theorem decodeFrom_quadruple (hb : Lead.ofByte b = .quadruple low high)
    (hc : isBetween low high c = true) (hd : isContinuation d = true)
    (he : isContinuation e = true) :
    decodeFrom position (b :: c :: d :: e :: rest) =
      prepend (char4 b c d e) (decodeFrom (position + 4) rest) := by
  rw [decodeFrom.eq_def]
  simp [hb, hc, hd, he]

/-! ### A character and its bytes -/

theorem toNat_charOfNat {n : Nat} (h : n < 0xD800 ∨ 0xDFFF < n ∧ n < 0x110000) :
    (Char.ofNat n).toNat = n := by
  rw [Char.ofNat, dif_pos h]
  exact UInt32.toNat_ofNatLT

/-- A byte is what it counts. -/
theorem ofNat_eq_of_toNat_eq {n : Nat} (h : b.toNat = n) : UInt8.ofNat n = b := by
  rw [← h, UInt8.ofNat_toNat]

theorem utf8EncodeChar_char1 (hb : Lead.ofByte b = .single) :
    String.utf8EncodeChar (char1 b) = [b] := by
  rw [Lead.ofByte_eq_single_iff] at hb
  have hv : (char1 b).toNat = b.toNat := toNat_charOfNat (by omega)
  simp only [String.utf8EncodeChar, Char.toNat_val, hv]
  rw [if_pos (by omega), UInt8.ofNat_toNat]

theorem utf8EncodeChar_char2 (hb : Lead.ofByte b = .double) (hc : isContinuation c = true) :
    String.utf8EncodeChar (char2 b c) = [b, c] := by
  rw [Lead.ofByte_eq_double_iff] at hb
  rw [isContinuation_iff] at hc
  have hv : (char2 b c).toNat = b.toNat % 0x20 * 0x40 + payload c :=
    toNat_charOfNat (by unfold payload; omega)
  simp only [String.utf8EncodeChar, Char.toNat_val, hv, payload]
  rw [if_neg (by omega), if_pos (by omega)]
  simp only [List.cons.injEq, and_true]
  exact ⟨ofNat_eq_of_toNat_eq (by omega), ofNat_eq_of_toNat_eq (by omega)⟩

theorem utf8EncodeChar_char3 (hb : Lead.ofByte b = .triple low high)
    (hc : isBetween low high c = true) (hd : isContinuation d = true) :
    String.utf8EncodeChar (char3 b c d) = [b, c, d] := by
  have hbounds := triple_bounds hb hc
  rw [isContinuation_iff] at hd
  have hv : (char3 b c d).toNat = (b.toNat % 0x10 * 0x40 + payload c) * 0x40 + payload d :=
    toNat_charOfNat (by unfold payload; omega)
  simp only [String.utf8EncodeChar, Char.toNat_val, hv, payload]
  rw [if_neg (by omega), if_neg (by omega), if_pos (by omega)]
  simp only [List.cons.injEq, and_true]
  exact ⟨ofNat_eq_of_toNat_eq (by omega), ofNat_eq_of_toNat_eq (by omega),
    ofNat_eq_of_toNat_eq (by omega)⟩

theorem utf8EncodeChar_char4 (hb : Lead.ofByte b = .quadruple low high)
    (hc : isBetween low high c = true) (hd : isContinuation d = true)
    (he : isContinuation e = true) :
    String.utf8EncodeChar (char4 b c d e) = [b, c, d, e] := by
  have hbounds := quadruple_bounds hb hc
  rw [isContinuation_iff] at hd he
  have hv : (char4 b c d e).toNat =
      ((b.toNat % 0x08 * 0x40 + payload c) * 0x40 + payload d) * 0x40 + payload e :=
    toNat_charOfNat (by unfold payload; omega)
  simp only [String.utf8EncodeChar, Char.toNat_val, hv, payload]
  rw [if_neg (by omega), if_neg (by omega), if_neg (by omega)]
  simp only [List.cons.injEq, and_true]
  exact ⟨ofNat_eq_of_toNat_eq (by omega), ofNat_eq_of_toNat_eq (by omega),
    ofNat_eq_of_toNat_eq (by omega), ofNat_eq_of_toNat_eq (by omega)⟩

/-- A number below 256 is what its byte counts. -/
theorem toNat_ofNat_byte {n : Nat} (h : n < 0x100) : (UInt8.ofNat n).toNat = n :=
  UInt8.toNat_ofNat_of_lt' h

theorem charOfNat_eq {n : Nat} {ch : Char} (h : n = ch.toNat) : Char.ofNat n = ch := by
  rw [h, Char.ofNat_toNat]

/-- **The bytes of a character are read as that character**, whatever stands behind them. -/
theorem decodeFrom_utf8EncodeChar_append (ch : Char) (position : Nat) (rest : List UInt8) :
    decodeFrom position (String.utf8EncodeChar ch ++ rest) =
      prepend ch (decodeFrom (position + (String.utf8EncodeChar ch).length) rest) := by
  have hvalid : ch.toNat < 0xD800 ∨ 0xDFFF < ch.toNat ∧ ch.toNat < 0x110000 := ch.valid
  simp only [String.utf8EncodeChar, Char.toNat_val]
  -- What the bytes behind the first count, of which there are up to three.
  have hlast : (UInt8.ofNat (ch.toNat % 64 + 128)).toNat = ch.toNat % 64 + 128 :=
    toNat_ofNat_byte (by omega)
  have hsecond : (UInt8.ofNat (ch.toNat / 64 % 64 + 128)).toNat = ch.toNat / 64 % 64 + 128 :=
    toNat_ofNat_byte (by omega)
  have hthird : (UInt8.ofNat (ch.toNat / 4096 % 64 + 128)).toNat = ch.toNat / 4096 % 64 + 128 :=
    toNat_ofNat_byte (by omega)
  -- One to four bytes; from the first the reader tells how many.
  split_ifs with h1 h2 h3
  · have hb : (UInt8.ofNat ch.toNat).toNat = ch.toNat := toNat_ofNat_byte (by omega)
    rw [List.singleton_append, decodeFrom_single (by rw [Lead.ofByte_eq_single_iff]; omega),
      show char1 _ = ch from charOfNat_eq hb]
    rfl
  · have hb : (UInt8.ofNat (ch.toNat / 64 % 32 + 192)).toNat = ch.toNat / 64 % 32 + 192 :=
      toNat_ofNat_byte (by omega)
    rw [List.cons_append, List.singleton_append,
      decodeFrom_double (by rw [Lead.ofByte_eq_double_iff]; omega)
        (by rw [isContinuation_iff]; omega),
      show char2 _ _ = ch from charOfNat_eq (by unfold payload; omega)]
    rfl
  · have hb : (UInt8.ofNat (ch.toNat / 4096 % 16 + 224)).toNat = ch.toNat / 4096 % 16 + 224 :=
      toNat_ofNat_byte (by omega)
    rw [List.cons_append, List.cons_append, List.singleton_append,
      decodeFrom_triple (Lead.ofByte_eq_triple_iff.mpr ⟨by omega, by omega, rfl, rfl⟩)
        (by rw [isBetween_iff]; grind) (by rw [isContinuation_iff]; omega),
      show char3 _ _ _ = ch from charOfNat_eq (by unfold payload; omega)]
    rfl
  · have hb : (UInt8.ofNat (ch.toNat / 262144 % 8 + 240)).toNat = ch.toNat / 262144 % 8 + 240 :=
      toNat_ofNat_byte (by omega)
    rw [List.cons_append, List.cons_append, List.cons_append, List.singleton_append,
      decodeFrom_quadruple (Lead.ofByte_eq_quadruple_iff.mpr ⟨by omega, by omega, rfl, rfl⟩)
        (by rw [isBetween_iff]; grind) (by rw [isContinuation_iff]; omega)
        (by rw [isContinuation_iff]; omega),
      show char4 _ _ _ _ = ch from charOfNat_eq (by unfold payload; omega)]
    rfl

/-! ### Whole texts -/

@[simp] theorem prepend_ok (ch : Char) (cs : List Char) :
    prepend ch (.ok cs) = .ok (ch :: cs) := rfl

theorem prepend_eq_ok_iff {ch : Char} {result : Except DecodeError (List Char)} {cs : List Char} :
    prepend ch result = .ok cs ↔ ∃ tail, result = .ok tail ∧ cs = ch :: tail := by
  cases result <;> simp [prepend, Except.map, eq_comm]

theorem decodeFrom_encode (cs : List Char) (position : Nat) :
    decodeFrom position (encode cs) = .ok cs := by
  induction cs generalizing position with
  | nil => simp [decodeFrom]
  | cons ch cs ih => rw [encode_cons, decodeFrom_utf8EncodeChar_append, ih, prepend_ok]

/-- If what stands behind a character's bytes is the encoding of what it is read as, so is the
whole. -/
theorem append_eq_encode_of_prepend {ch : Char} {bytes : List UInt8} {cs : List Char}
    (hbytes : String.utf8EncodeChar ch = bytes)
    (ih : ∀ {cs}, decodeFrom position rest = .ok cs → rest = encode cs)
    (h : prepend ch (decodeFrom position rest) = .ok cs) : bytes ++ rest = encode cs := by
  obtain ⟨tail, htail, rfl⟩ := prepend_eq_ok_iff.mp h
  rw [encode_cons, hbytes, ih htail]

/-- What is read as a text is the text's encoding. -/
theorem eq_encode_of_decodeFrom {bytes : List UInt8} {cs : List Char}
    (h : decodeFrom position bytes = .ok cs) : bytes = encode cs := by
  fun_induction decodeFrom generalizing cs
  -- Of the reader's ways to go on, five end without a fault at once.
  all_goals try contradiction
  case case1 =>
    cases h
    rfl
  case case3 hb ih => exact append_eq_encode_of_prepend (utf8EncodeChar_char1 hb) ih h
  case case5 hb _ _ hc ih => exact append_eq_encode_of_prepend (utf8EncodeChar_char2 hb hc) ih h
  case case12 hb _ _ _ hc hd ih =>
    exact append_eq_encode_of_prepend
      (utf8EncodeChar_char3 hb (by simpa using hc) (by simpa using hd)) ih h
  case case22 hb _ _ _ _ hc hd he ih =>
    exact append_eq_encode_of_prepend
      (utf8EncodeChar_char4 hb (by simpa using hc) (by simpa using hd) (by simpa using he)) ih h

/-- **Reading bytes inverts encoding texts**: bytes are read as a text exactly if they are its
encoding. So what is no encoding of any text is refused, and no text has a second encoding. -/
theorem decode_eq_ok_iff {bytes : List UInt8} {cs : List Char} :
    decode bytes = .ok cs ↔ bytes = encode cs := by
  constructor
  · exact eq_encode_of_decodeFrom
  · rintro rfl
    exact decodeFrom_encode cs 0

end MonkeySyntax.Text.Utf8
