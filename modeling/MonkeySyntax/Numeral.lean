import MonkeySyntax.Text.Blank
import MonkeySyntax.Text.DecimalDigit

/-!
# Numerals

The value of an integer as it is written in a program text. After an optional sign, `0x`, `0o` or
`0b` (in either case) announces hexadecimal, octal or binary digits, and a number without such an
announcement is decimal. Single underscores may stand between digits, and one after the
announcement. Blanks around a number do not count, and digits of any script count as the decimal
digits that they are.

A decimal number may begin with a zero only if it is zero, and has at most 4300 digits. A number
with more decimal digits than that cannot be written either (`Numeral.decimalText?`). A text of
nothing but digits that begins with a zero and is no decimal number in this sense is read as octal,
whatever its length.

A program's integers have 64 bits with a sign: a number outside that range has no value
(`Numeral.value?`).
-/

namespace MonkeySyntax.Numeral

/-! ### Digits -/

/-- The value of an ASCII digit or letter in a given base. -/
def digit? (base : Nat) (c : Char) : Option Nat :=
  let n := c.toNat
  let value? :=
    if 0x30 ≤ n ∧ n ≤ 0x39 then some (n - 0x30)
    else if 0x41 ≤ n ∧ n ≤ 0x5A then some (n - 0x37)
    else if 0x61 ≤ n ∧ n ≤ 0x7A then some (n - 0x57)
    else none
  value?.filter (· < base)

/-- One or more digits with single underscores between them. -/
def digits? (base : Nat) : List Char → Option (List Nat)
  | [] => none
  | [c] => (digit? base c).map ([·])
  | c :: '_' :: rest =>
    match digit? base c, digits? base rest with
    | some d, some ds => some (d :: ds)
    | _, _ => none
  | c :: rest =>
    match digit? base c, digits? base rest with
    | some d, some ds => some (d :: ds)
    | _, _ => none

/-- The number with the given digits, the most significant first. -/
def ofDigits (base : Nat) (digits : List Nat) : Nat :=
  digits.foldl (fun n d => n * base + d) 0

@[simp] theorem ofDigits_nil (base : Nat) : ofDigits base [] = 0 := rfl

theorem ofDigits_concat (base : Nat) (digits : List Nat) (d : Nat) :
    ofDigits base (digits ++ [d]) = ofDigits base digits * base + d := by
  simp [ofDigits]

/-! ### Notations -/

/-- The most digits that a decimal number may have, read or written. -/
def maxDecimalDigits : Nat := 4300

/-- A number in decimal digits. -/
def decimal? (cs : List Char) : Option Nat := do
  let ds ← digits? 10 cs
  if maxDecimalDigits < ds.length then none
  else if cs.head? = some '0' ∧ ofDigits 10 ds ≠ 0 then none
  else some (ofDigits 10 ds)

/-- A number whose base has been announced; an underscore may come first. -/
def announced? (base : Nat) : List Char → Option Nat
  | '_' :: cs => (digits? base cs).map (ofDigits base)
  | cs => (digits? base cs).map (ofDigits base)

/-- A number without a sign. -/
def unsigned? : List Char → Option Nat
  | '0' :: 'x' :: cs => announced? 16 cs
  | '0' :: 'X' :: cs => announced? 16 cs
  | '0' :: 'o' :: cs => announced? 8 cs
  | '0' :: 'O' :: cs => announced? 8 cs
  | '0' :: 'b' :: cs => announced? 2 cs
  | '0' :: 'B' :: cs => announced? 2 cs
  | cs => decimal? cs

/-- A number with at most one sign. -/
def signed? : List Char → Option Int
  | '+' :: cs => (unsigned? cs).map Int.ofNat
  | '-' :: cs => (unsigned? cs).map fun n => -Int.ofNat n
  | cs => (unsigned? cs).map Int.ofNat

/-- The blanks that may stand around a number: tab to carriage return, and space. -/
def isOuterBlank (c : Char) : Bool :=
  (0x9 ≤ c.toNat && c.toNat ≤ 0xD) || c == ' '

/-- A character in ASCII: a blank of any kind as a space, a digit of any script as the ASCII digit
of its value. -/
def ascii? (c : Char) : Option Char :=
  if c.toNat < 0x7F then some c
  else if Text.isBlank c then some ' '
  else (Text.decimalValue? c).map fun d => Char.ofNat (0x30 + d)

/-- The number that a text denotes by its notation. -/
def plain? (cs : List Char) : Option Int := do
  let cs ← cs.mapM ascii?
  signed? (Text.trimList isOuterBlank cs)

/-- The number that a text denotes as octal digits behind a zero. -/
def leadingZero? (cs : List Char) : Option Int := do
  let ds ← cs.mapM Text.decimalValue?
  if 1 < cs.length ∧ cs.head? = some '0' ∧ ds.all (· < 8) then some (Int.ofNat (ofDigits 8 ds))
  else none

/-- The number that a text denotes, of whatever size. -/
def number? (cs : List Char) : Option Int :=
  -- The octal reading is for texts that have no other, such as `017`.
  (plain? cs).or (leadingZero? cs)

/-- The integers of 64 bits with a sign. -/
def InRange (n : Int) : Prop :=
  -0x8000000000000000 ≤ n ∧ n ≤ 0x7FFFFFFFFFFFFFFF

instance (n : Int) : Decidable (InRange n) :=
  inferInstanceAs (Decidable (_ ∧ _))

/-- The value of a numeral, if the text is one and its number is in range. -/
def value? (text : String) : Option Int :=
  (number? text.toList).filter (decide <| InRange ·)

theorem inRange_of_value? {text : String} {n : Int} (h : value? text = some n) : InRange n := by
  have := (Option.filter_eq_some_iff.1 h).2
  simpa using this

/-! ### Writing -/

/-- The decimal text of an integer, unless it takes too many digits. -/
def decimalText? (n : Int) : Option String :=
  if (Nat.toDigits 10 n.natAbs).length ≤ maxDecimalDigits then some (toString n) else none

theorem isSome_decimalText?_iff {n : Int} :
    (decimalText? n).isSome = true ↔ (Nat.toDigits 10 n.natAbs).length ≤ maxDecimalDigits := by
  simp [decimalText?]

end MonkeySyntax.Numeral
