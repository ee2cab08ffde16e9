import MonkeySyntax.Text.Hex
import MonkeySyntax.Text.Quoted

/-!
# JSON

JSON values, whose objects keep the order of their members, and the text they are printed as. The
text is ASCII throughout: inside a string every character outside the range from the space to the
tilde is escaped, with a letter where JSON has one (`\n`) and otherwise by its UTF-16 code units
(`\u00e9`; two units beyond U+FFFF). Lists and objects put each of their parts on a line of its own,
two spaces further in than the brackets; empty ones stay on one line.
-/

namespace MonkeySyntax

/-- A JSON value, with integers for numbers. -/
inductive Json where
  | null
  | bool (b : Bool)
  | number (n : Int)
  | string (s : String)
  | array (items : List Json)
  | object (members : List (String × Json))

namespace Json

/-- A UTF-16 code unit as an escape. -/
def unitEscape (unit : Nat) : List Char :=
  Text.backslash :: 'u' :: Text.hex 4 unit

/-- A character by its UTF-16 code units: one of them, or the two of a surrogate pair. -/
def codeUnitEscape (c : Char) : List Char :=
  let n := c.toNat
  if n < 0x10000 then unitEscape n
  else unitEscape (0xD800 + (n - 0x10000) / 0x400) ++ unitEscape (0xDC00 + (n - 0x10000) % 0x400)

/-- One character inside a JSON string. -/
def stringChar (c : Char) : List Char :=
  if c = Text.doubleQuote ∨ c = Text.backslash then [Text.backslash, c]
  -- The controls that have a letter; the others fall to the last case.
  else if c = '\n' then [Text.backslash, 'n']
  else if c = '\r' then [Text.backslash, 'r']
  else if c = '\t' then [Text.backslash, 't']
  else if c = '\x0c' then [Text.backslash, 'f']
  else if c = '\x08' then [Text.backslash, 'b']
  else if 0x20 ≤ c.toNat ∧ c.toNat < 0x7F then [c]
  else codeUnitEscape c

/-- A text as a JSON string. -/
def stringText (s : String) : String :=
  String.ofList (Text.doubleQuote :: s.toList.flatMap stringChar ++ [Text.doubleQuote])

/-- The start of a new line at the given depth. -/
def newLine (depth : Nat) : String :=
  String.ofList ('\n' :: List.replicate (2 * depth) ' ')

/-- Parts between brackets, each on a line of its own. -/
def enclose (opening closing : String) (depth : Nat) (parts : List String) : String :=
  if parts.isEmpty then opening ++ closing
  else
    opening ++ newLine (depth + 1) ++ ("," ++ newLine (depth + 1)).intercalate parts ++
      newLine depth ++ closing

mutual

/-- The text of a value that stands at the given depth. -/
def textAt (depth : Nat) : Json → String
  | null => "null"
  | bool true => "true"
  | bool false => "false"
  | number n => toString n
  | string s => stringText s
  | array items => enclose "[" "]" depth (itemTexts (depth + 1) items)
  | object members => enclose "\x7b" "\x7d" depth (memberTexts (depth + 1) members)

/-- The texts of the items of a list. -/
def itemTexts (depth : Nat) : List Json → List String
  | [] => []
  | item :: items => item.textAt depth :: itemTexts depth items

/-- The texts of the members of an object. -/
def memberTexts (depth : Nat) : List (String × Json) → List String
  | [] => []
  | (key, value) :: members =>
    (stringText key ++ ": " ++ value.textAt depth) :: memberTexts depth members

end

@[simp] theorem itemTexts_eq_map (depth : Nat) (items : List Json) :
    itemTexts depth items = items.map (textAt depth) := by
  induction items with
  | nil => rfl
  | cons item items ih => simp [itemTexts, ih]

@[simp] theorem memberTexts_eq_map (depth : Nat) (members : List (String × Json)) :
    memberTexts depth members =
      members.map fun member => stringText member.1 ++ ": " ++ member.2.textAt depth := by
  induction members with
  | nil => rfl
  | cons member members ih => simp [memberTexts, ih]

/-- The text of a value. -/
def text (value : Json) : String :=
  value.textAt 0

mutual

/-- The value without the members of the given names, at any depth. -/
def without (names : List String) : Json → Json
  | null => null
  | bool b => bool b
  | number n => number n
  | string s => string s
  | array items => array (withoutEach names items)
  | object members => object (withoutMembers names members)

/-- The values without the members of the given names. -/
def withoutEach (names : List String) : List Json → List Json
  | [] => []
  | item :: items => item.without names :: withoutEach names items

/-- The members apart from those of the given names. -/
def withoutMembers (names : List String) : List (String × Json) → List (String × Json)
  | [] => []
  | (key, value) :: members =>
    if key ∈ names then withoutMembers names members
    else (key, value.without names) :: withoutMembers names members

end

@[simp] theorem withoutEach_eq_map (names : List String) (items : List Json) :
    withoutEach names items = items.map (without names) := by
  induction items with
  | nil => rfl
  | cons item items ih => simp [withoutEach, ih]

@[simp] theorem withoutMembers_eq_map (names : List String) (members : List (String × Json)) :
    withoutMembers names members =
      (members.filter (·.1 ∉ names)).map fun member => (member.1, member.2.without names) := by
  induction members with
  | nil => rfl
  | cons member members ih => by_cases h : member.1 ∈ names <;> simp [withoutMembers, h, ih]

end Json

end MonkeySyntax
