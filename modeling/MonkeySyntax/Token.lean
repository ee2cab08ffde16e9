/-!
# Tokens

A token is the smallest piece of a program that the grammar speaks about: a **kind**, the
**literal** text it was read from, and the place where that text starts. There are thirty kinds; a
kind has two texts of its own:

* `TokenKind.name` — the upper-case name under which token listings show it (`LPAREN`);
* `TokenKind.display` — how diagnostics call it: an operator or delimiter by its spelling (`(`),
  every other kind by its name.

Both are injective, and `TokenKind.ofName?` and `TokenKind.ofDisplay?` invert them. The reserved
words are one table, `keywords`, and the one-character operators and delimiters another, `symbols`.
-/

namespace MonkeySyntax

/-- The lexical categories. -/
inductive TokenKind where
  /-- A character that starts no token. -/
  | illegal
  /-- The end of the input. -/
  | eof
  | identifier
  /-- A run of digits and dots. -/
  | int
  | string
  | assign
  | plus
  | minus
  | star
  | slash
  | bang
  | equal
  | notEqual
  | lessThan
  | greaterThan
  | comma
  | semicolon
  | leftParen
  | rightParen
  | leftBrace
  | rightBrace
  | leftBracket
  | rightBracket
  | functionKeyword
  | letKeyword
  | trueKeyword
  | falseKeyword
  | ifKeyword
  | elseKeyword
  | returnKeyword
  deriving DecidableEq, Repr, Inhabited

namespace TokenKind

/-- Every kind, in the order in which listings of the kinds show them. -/
def all : List TokenKind :=
  [illegal, eof, identifier, int, string, assign, plus, minus, star, slash, bang, equal, notEqual,
    lessThan, greaterThan, comma, semicolon, leftParen, rightParen, leftBrace, rightBrace,
    leftBracket, rightBracket, functionKeyword, letKeyword, trueKeyword, falseKeyword, ifKeyword,
    elseKeyword, returnKeyword]

theorem mem_all (k : TokenKind) : k ∈ all := by
  cases k <;> decide

/-- The upper-case name of a kind. -/
def name : TokenKind → String
  | illegal => "ILLEGAL"
  | eof => "EOF"
  | identifier => "IDENTIFIER"
  | int => "INT"
  | string => "STRING"
  | assign => "ASSIGN"
  | plus => "PLUS"
  | minus => "MINUS"
  | star => "STAR"
  | slash => "SLASH"
  | bang => "BANG"
  | equal => "EQUAL"
  | notEqual => "NOT_EQUAL"
  | lessThan => "LESS_THAN"
  | greaterThan => "GREATER_THAN"
  | comma => "COMMA"
  | semicolon => "SEMICOLON"
  | leftParen => "LPAREN"
  | rightParen => "RPAREN"
  | leftBrace => "LBRACE"
  | rightBrace => "RBRACE"
  | leftBracket => "LBRACKET"
  | rightBracket => "RBRACKET"
  | functionKeyword => "FUNCTION"
  | letKeyword => "LET"
  | trueKeyword => "TRUE"
  | falseKeyword => "FALSE"
  | ifKeyword => "IF"
  | elseKeyword => "ELSE"
  | returnKeyword => "RETURN"

/-- How diagnostics call a kind: operators and delimiters by their spelling, the rest by name. -/
def display : TokenKind → String
  | assign => "="
  | plus => "+"
  | minus => "-"
  | star => "*"
  | slash => "/"
  | bang => "!"
  | equal => "=="
  | notEqual => "!="
  | lessThan => "<"
  | greaterThan => ">"
  | comma => ","
  | semicolon => ";"
  | leftParen => "("
  | rightParen => ")"
  | leftBrace => "\x7b"
  | rightBrace => "\x7d"
  | leftBracket => "["
  | rightBracket => "]"
  | k => k.name

/-- The kind with the given name. -/
def ofName? (name : String) : Option TokenKind :=
  all.find? (·.name == name)

/-- The kind that diagnostics call by the given text. -/
def ofDisplay? (text : String) : Option TokenKind :=
  all.find? (·.display == text)

theorem ofName?_name (k : TokenKind) : ofName? k.name = some k := by
  cases k <;> decide

theorem ofDisplay?_display (k : TokenKind) : ofDisplay? k.display = some k := by
  cases k <;> decide

theorem name_injective {j k : TokenKind} (h : j.name = k.name) : j = k := by
  have hj := ofName?_name j
  rw [h, ofName?_name k] at hj
  exact (Option.some.inj hj).symm

theorem display_injective {j k : TokenKind} (h : j.display = k.display) : j = k := by
  have hj := ofDisplay?_display j
  rw [h, ofDisplay?_display k] at hj
  exact (Option.some.inj hj).symm

end TokenKind

/-- The reserved words with their kinds. -/
def keywords : List (String × TokenKind) :=
  [("fn", .functionKeyword), ("let", .letKeyword), ("true", .trueKeyword),
    ("false", .falseKeyword), ("if", .ifKeyword), ("else", .elseKeyword),
    ("return", .returnKeyword)]

/-- The kind of a word: a reserved word has a kind of its own, any other is an identifier. -/
def TokenKind.ofWord (word : String) : TokenKind :=
  (keywords.lookup word).getD .identifier

/-- What a table gives for a key stands in the table. -/
theorem mem_of_lookup_eq_some {α β : Type} [BEq α] [LawfulBEq α] {table : List (α × β)} {a : α}
    {b : β} (h : table.lookup a = some b) : (a, b) ∈ table := by
  obtain ⟨before, behind, rfl, -⟩ := List.lookup_eq_some_iff.1 h
  simp

/-- A word is a keyword of the table or an identifier. -/
theorem TokenKind.ofWord_eq (word : String) :
    (word, ofWord word) ∈ keywords ∨ ofWord word = .identifier := by
  unfold ofWord
  cases h : keywords.lookup word with
  | some kind => exact .inl (mem_of_lookup_eq_some h)
  | none => exact .inr rfl

theorem TokenKind.ofWord_ne_eof (word : String) : ofWord word ≠ .eof := by
  -- No entry of the table has the end kind, and identifiers do not have it either.
  have hk : ∀ entry ∈ keywords, entry.2 ≠ .eof := by decide
  rcases ofWord_eq word with h | h
  · exact hk _ h
  · rw [h]
    decide

/-- The operators and delimiters that one character spells. -/
def symbols : List (Char × TokenKind) :=
  [('=', .assign), ('+', .plus), ('-', .minus), ('*', .star), ('/', .slash), ('!', .bang),
    ('<', .lessThan), ('>', .greaterThan), (';', .semicolon), (',', .comma), ('(', .leftParen),
    (')', .rightParen), ('\x7b', .leftBrace), ('\x7d', .rightBrace), ('[', .leftBracket),
    (']', .rightBracket)]

/-- The kind that the character spells by itself, if it is an operator or a delimiter. -/
def TokenKind.ofSymbol? (c : Char) : Option TokenKind :=
  symbols.lookup c

theorem TokenKind.mem_symbols {c : Char} {kind : TokenKind} (h : ofSymbol? c = some kind) :
    (c, kind) ∈ symbols :=
  mem_of_lookup_eq_some h

theorem TokenKind.ofSymbol?_ne_eof (c : Char) : ofSymbol? c ≠ some .eof := by
  have hs : ∀ entry ∈ symbols, entry.2 ≠ .eof := by decide
  intro h
  exact hs _ (mem_symbols h) rfl

/-- A piece of the program text: its kind, the text it was read from (for a string, what stands
between the quotes), and the line and column where it starts, both counted from one. Tokens made
by hand may stand anywhere, so lines and columns are arbitrary integers. -/
structure Token where
  kind : TokenKind
  literal : String
  line : Int := 0
  col : Int := 0
  deriving DecidableEq, Repr, Inhabited

namespace Token

/-- Two tokens **look alike** when they differ at most in their place. -/
def LooksLike (s t : Token) : Prop :=
  s.kind = t.kind ∧ s.literal = t.literal

theorem LooksLike.refl (t : Token) : t.LooksLike t :=
  ⟨rfl, rfl⟩

instance (s t : Token) : Decidable (s.LooksLike t) :=
  inferInstanceAs (Decidable (_ ∧ _))

end Token

end MonkeySyntax
