import MonkeySyntax.Text.Hex

/-!
# UTF-8

Reading bytes as text. The first byte of a character tells how many bytes follow it, and a few first
bytes narrow down the second, so that no character has two encodings, no surrogate has one, and
nothing lies beyond U+10FFFF. Where the bytes cease to be an encoding, reading stops with a fault
that names the bytes concerned: the first byte, and those after it which were still possible.
-/

namespace MonkeySyntax.Text.Utf8

/-- Why bytes are no text. -/
inductive Fault where
  /-- No character begins with this byte. -/
  | invalidStart
  /-- The byte after these does not go on with the character. -/
  | invalidContinuation
  /-- The bytes end within a character. -/
  | unexpectedEnd
  deriving DecidableEq, Repr

/-- A fault, where it begins, and the bytes concerned. -/
structure DecodeError where
  fault : Fault
  position : Nat
  bytes : List UInt8
  deriving DecidableEq, Repr

/-- The wording of a fault. -/
def Fault.reason : Fault → String
  | .invalidStart => "invalid start byte"
  | .invalidContinuation => "invalid continuation byte"
  | .unexpectedEnd => "unexpected end of data"

/-- The message: a single byte is shown, several are counted. -/
def DecodeError.message (e : DecodeError) : String :=
  "'utf-8' codec can't decode " ++
    (match e.bytes with
      | [b] => "byte 0x" ++ String.ofList (hex 2 b.toNat) ++ " in position " ++ toString e.position
      | bytes =>
        "bytes in position " ++ toString e.position ++ "-" ++
          toString (e.position + bytes.length - 1)) ++
    ": " ++ e.fault.reason

/-- What a first byte announces. -/
inductive Lead where
  /-- A character by itself. -/
  | single
  /-- One byte follows. -/
  | double
  /-- Two bytes follow, the first of them between the given bounds. -/
  | triple (low high : Nat)
  /-- Three bytes follow, the first of them between the given bounds. -/
  | quadruple (low high : Nat)
  /-- No character begins so. -/
  | invalid
  deriving DecidableEq, Repr

/-- What the byte announces when a character begins with it. -/
def Lead.ofByte (b : UInt8) : Lead :=
  let n := b.toNat
  if n < 0x80 then .single
  -- Up to `BF` a byte goes on with a character; `C0` and `C1` would spell out ASCII at length.
  else if n < 0xC2 then .invalid
  else if n < 0xE0 then .double
  -- Here the bounds leave out what fits in fewer bytes, and then the surrogates.
  else if n = 0xE0 then .triple 0xA0 0xBF
  else if n = 0xED then .triple 0x80 0x9F
  else if n < 0xF0 then .triple 0x80 0xBF
  else if n = 0xF0 then .quadruple 0x90 0xBF
  else if n < 0xF4 then .quadruple 0x80 0xBF
  -- Nothing lies beyond U+10FFFF.
  else if n = 0xF4 then .quadruple 0x80 0x8F
  else .invalid

/-- A byte that lies between two bounds. -/
def isBetween (low high : Nat) (b : UInt8) : Bool :=
  low ≤ b.toNat && b.toNat ≤ high

/-- A byte that goes on with a character. -/
def isContinuation (b : UInt8) : Bool :=
  isBetween 0x80 0xBF b

/-- The six bits that a byte adds to a character. -/
def payload (b : UInt8) : Nat :=
  b.toNat % 0x40

/-- The character of one, two, three or four bytes. -/
def char1 (b : UInt8) : Char :=
  Char.ofNat b.toNat

def char2 (b c : UInt8) : Char :=
  Char.ofNat (b.toNat % 0x20 * 0x40 + payload c)

def char3 (b c d : UInt8) : Char :=
  Char.ofNat ((b.toNat % 0x10 * 0x40 + payload c) * 0x40 + payload d)

def char4 (b c d e : UInt8) : Char :=
  Char.ofNat (((b.toNat % 0x08 * 0x40 + payload c) * 0x40 + payload d) * 0x40 + payload e)

/-- Put a character in front of what the bytes behind it are read as. -/
def prepend (c : Char) (rest : Except DecodeError (List Char)) : Except DecodeError (List Char) :=
  rest.map (c :: ·)

/-- Read bytes, the first of which has the given position. -/
def decodeFrom (position : Nat) : List UInt8 → Except DecodeError (List Char)
  | [] => .ok []
  | b :: rest =>
    match Lead.ofByte b with
    | .invalid => .error ⟨.invalidStart, position, [b]⟩
    | .single => prepend (char1 b) (decodeFrom (position + 1) rest)
    | .double =>
      match rest with
      | [] => .error ⟨.unexpectedEnd, position, [b]⟩
      | c :: rest =>
        if isContinuation c then prepend (char2 b c) (decodeFrom (position + 2) rest)
        else .error ⟨.invalidContinuation, position, [b]⟩
    | .triple low high =>
      match rest with
      | [] => .error ⟨.unexpectedEnd, position, [b]⟩
      | [c] =>
        if isBetween low high c then .error ⟨.unexpectedEnd, position, [b, c]⟩
        else .error ⟨.invalidContinuation, position, [b]⟩
      | c :: d :: rest =>
        if !isBetween low high c then .error ⟨.invalidContinuation, position, [b]⟩
        else if !isContinuation d then .error ⟨.invalidContinuation, position, [b, c]⟩
        else prepend (char3 b c d) (decodeFrom (position + 3) rest)
    | .quadruple low high =>
      match rest with
      | [] => .error ⟨.unexpectedEnd, position, [b]⟩
      | [c] =>
        if isBetween low high c then .error ⟨.unexpectedEnd, position, [b, c]⟩
        else .error ⟨.invalidContinuation, position, [b]⟩
      | [c, d] =>
        if !isBetween low high c then .error ⟨.invalidContinuation, position, [b]⟩
        else if isContinuation d then .error ⟨.unexpectedEnd, position, [b, c, d]⟩
        else .error ⟨.invalidContinuation, position, [b, c]⟩
      | c :: d :: e :: rest =>
        if !isBetween low high c then .error ⟨.invalidContinuation, position, [b]⟩
        else if !isContinuation d then .error ⟨.invalidContinuation, position, [b, c]⟩
        else if !isContinuation e then .error ⟨.invalidContinuation, position, [b, c, d]⟩
        else prepend (char4 b c d e) (decodeFrom (position + 4) rest)

/-- Read bytes as text. -/
def decode (bytes : List UInt8) : Except DecodeError (List Char) :=
  decodeFrom 0 bytes

end MonkeySyntax.Text.Utf8
