import Mathlib.Data.List.Basic
import MonkeySyntax.Numeral
import MonkeySyntax.Parser.Level
import MonkeySyntax.Tree.Node

/-!
# Spellings

The concrete syntax of trees: which sequences of tokens write a tree down. It is given as a grammar
over trees and knows nothing of the parser.

A tree has many spellings. Any expression may stand in parentheses, any number of them, and a
semicolon may be left out where the next token could not continue the statement. Operands are
subject to the levels of their operators: an expression is spelled **against a floor**, and a form
that binds less tightly than the floor must stand in parentheses. A binary operator asks its left
operand for its own level and its right operand for more, so that operators of one level group to
the left; an operator before its operand asks for its own level, and so does a call of what is
called. All other forms satisfy every floor.

Besides expressions and statements, the grammar has a phrase for each kind of list, and for the tail
of a list behind its first member. `Spells` is one relation over all phrases, so that proofs are by
one induction.
-/

namespace MonkeySyntax

/-- What tokens can spell. -/
inductive Phrase where
  /-- An expression that binds at least as tightly as the floor. -/
  | expression (floor : Nat) (e : Node)
  /-- Expressions with commas between them. -/
  | items (es : List Node)
  /-- Expressions with a comma before each. -/
  | moreItems (es : List Node)
  /-- Names with commas between them. -/
  | names (ns : List Node)
  /-- Names with a comma before each. -/
  | moreNames (ns : List Node)
  /-- Statements in braces. -/
  | block (b : Node)
  /-- A statement without its semicolon. -/
  | statement (s : Node)
  /-- Statements, each with its semicolon unless that may be left out. -/
  | statements (ss : List Node)

/-- The operators that stand before their operand. -/
def TokenKind.IsUnary (k : TokenKind) : Prop :=
  k = .bang ∨ k = .minus

/-- The operators that stand between their operands. -/
def TokenKind.IsBinary (k : TokenKind) : Prop :=
  k ∈ [.plus, .minus, .star, .slash, .equal, .notEqual, .lessThan, .greaterThan]

instance (k : TokenKind) : Decidable k.IsUnary :=
  inferInstanceAs (Decidable (_ ∨ _))

instance (k : TokenKind) : Decidable k.IsBinary :=
  inferInstanceAs (Decidable (_ ∈ _))

/-- The tokens spell the phrase. -/
inductive Spells : Phrase → List Token → Prop where
  -- Names and literals are their one token.
  | identifier {floor t} : t.kind = .identifier →
      Spells (.expression floor (.identifier t t.literal)) [t]
  | integer {floor t n} : t.kind = .int → Numeral.value? t.literal = some n →
      Spells (.expression floor (.integer t (.number n))) [t]
  | trueLiteral {floor t} : t.kind = .trueKeyword →
      Spells (.expression floor (.boolean t true)) [t]
  | falseLiteral {floor t} : t.kind = .falseKeyword →
      Spells (.expression floor (.boolean t false)) [t]
  | string {floor t} : t.kind = .string → Spells (.expression floor (.string t t.literal)) [t]
  -- Operators ask their operands for a floor.
  | unary {floor t e ts} : floor ≤ Level.unary.power → t.kind.IsUnary →
      Spells (.expression Level.unary.power e) ts →
      Spells (.expression floor (.unary t t.literal e)) (t :: ts)
  | binary {floor t l r ls rs} : floor ≤ t.kind.level.power → t.kind.IsBinary →
      Spells (.expression t.kind.level.power l) ls →
      Spells (.expression (t.kind.level.power + 1) r) rs →
      Spells (.expression floor (.binary t l t.literal r)) (ls ++ t :: rs)
  | call {floor t f args fs ts close} : floor ≤ Level.call.power → t.kind = .leftParen →
      Spells (.expression Level.call.power f) fs → Spells (.items args) ts →
      close.kind = .rightParen →
      Spells (.expression floor (.call t f args)) (fs ++ t :: (ts ++ [close]))
  -- Parentheses satisfy every floor, and ask for none.
  | grouped {floor e ts opening close} : opening.kind = .leftParen → Spells (.expression 0 e) ts →
      close.kind = .rightParen → Spells (.expression floor e) (opening :: (ts ++ [close]))
  | array {floor t es ts close} : t.kind = .leftBracket → Spells (.items es) ts →
      close.kind = .rightBracket → Spells (.expression floor (.array t es)) (t :: (ts ++ [close]))
  | conditional {floor t opening c cs close b bs} : t.kind = .ifKeyword →
      opening.kind = .leftParen → Spells (.expression 0 c) cs → close.kind = .rightParen →
      Spells (.block b) bs →
      Spells (.expression floor (.conditional t c b none)) (t :: opening :: (cs ++ close :: bs))
  | conditionalElse {floor t opening c cs close b bs els a as} : t.kind = .ifKeyword →
      opening.kind = .leftParen → Spells (.expression 0 c) cs → close.kind = .rightParen →
      Spells (.block b) bs → els.kind = .elseKeyword → Spells (.block a) as →
      Spells (.expression floor (.conditional t c b (some a)))
        (t :: opening :: (cs ++ close :: (bs ++ els :: as)))
  | function {floor t opening ns ts close b bs} : t.kind = .functionKeyword →
      opening.kind = .leftParen → Spells (.names ns) ts → close.kind = .rightParen →
      Spells (.block b) bs →
      Spells (.expression floor (.function t ns b)) (t :: opening :: (ts ++ close :: bs))
  -- Lists.
  | noItems : Spells (.items []) []
  | items {e es ts us} : Spells (.expression 0 e) ts → Spells (.moreItems es) us →
      Spells (.items (e :: es)) (ts ++ us)
  | noMoreItems : Spells (.moreItems []) []
  | moreItems {comma e es ts us} : comma.kind = .comma → Spells (.expression 0 e) ts →
      Spells (.moreItems es) us → Spells (.moreItems (e :: es)) (comma :: (ts ++ us))
  | noNames : Spells (.names []) []
  | names {t ns us} : t.kind = .identifier → Spells (.moreNames ns) us →
      Spells (.names (.identifier t t.literal :: ns)) (t :: us)
  | noMoreNames : Spells (.moreNames []) []
  | moreNames {comma t ns us} : comma.kind = .comma → t.kind = .identifier →
      Spells (.moreNames ns) us →
      Spells (.moreNames (.identifier t t.literal :: ns)) (comma :: t :: us)
  -- Blocks and statements.
  | block {t ss ts close} : t.kind = .leftBrace → Spells (.statements ss) ts →
      close.kind = .rightBrace → Spells (.block (.block t ss)) (t :: (ts ++ [close]))
  | letStatement {t name assign e ts} : t.kind = .letKeyword → name.kind = .identifier →
      assign.kind = .assign → Spells (.expression 0 e) ts →
      Spells (.statement (.letStatement t (.identifier name name.literal) e))
        (t :: name :: assign :: ts)
  | returnStatement {t e ts} : t.kind = .returnKeyword → Spells (.expression 0 e) ts →
      Spells (.statement (.returnStatement t e)) (t :: ts)
  | expressionStatement {t e ts} : Spells (.expression 0 e) ts →
      Spells (.statement (.expressionStatement t e)) ts
  | noStatements : Spells (.statements []) []
  | terminated {s ss ts semicolon us} : Spells (.statement s) ts → semicolon.kind = .semicolon →
      Spells (.statements ss) us → Spells (.statements (s :: ss)) (ts ++ semicolon :: us)
  /-- What follows the last statement, a closing brace or nothing, continues no statement. -/
  | unterminated {s ss ts us} : Spells (.statement s) ts →
      (∀ t ∈ us.head?, t.kind.level = .lowest) → Spells (.statements ss) us →
      Spells (.statements (s :: ss)) (ts ++ us)

/-- The tokens spell the program. -/
def Program.Spelled (p : Program) (ts : List Token) : Prop :=
  Spells (.statements p.statements) ts

/-- A closing brace, wherever it may stand. -/
def closingBrace : Token :=
  ⟨.rightBrace, "\x7d", 0, 0⟩

/-! ### Levels of operators -/

theorem TokenKind.IsBinary.level {k : TokenKind} (h : k.IsBinary) :
    Level.lowest.power < k.level.power ∧ k.level.power < Level.unary.power := by
  revert h
  cases k <;> decide

theorem TokenKind.IsBinary.ne_eof {k : TokenKind} (h : k.IsBinary) : k ≠ .eof := by
  rintro rfl
  exact absurd h (by decide)

theorem TokenKind.IsUnary.ne_eof {k : TokenKind} (h : k.IsUnary) : k ≠ .eof := by
  rintro rfl
  exact absurd h (by decide)

theorem TokenKind.level_le_call (k : TokenKind) : k.level.power ≤ Level.call.power := by
  cases k <;> decide

/-- **Lower floors.** What satisfies a floor satisfies each that is not higher. -/
theorem Spells.lower {floor floor' : Nat} {e : Node} {ts : List Token}
    (h : Spells (.expression floor e) ts) (hle : floor' ≤ floor) :
    Spells (.expression floor' e) ts := by
  cases h with
  | identifier hk => exact .identifier hk
  | integer hk hn => exact .integer hk hn
  | trueLiteral hk => exact .trueLiteral hk
  | falseLiteral hk => exact .falseLiteral hk
  | string hk => exact .string hk
  | unary hf hk he => exact .unary (Nat.le_trans hle hf) hk he
  | binary hf hk hl hr => exact .binary (Nat.le_trans hle hf) hk hl hr
  | call hf hk hfs hts hc => exact .call (Nat.le_trans hle hf) hk hfs hts hc
  | grouped ho he hc => exact .grouped ho he hc
  | array hk hts hc => exact .array hk hts hc
  | conditional hk ho hcs hc hb => exact .conditional hk ho hcs hc hb
  | conditionalElse hk ho hcs hc hb he ha => exact .conditionalElse hk ho hcs hc hb he ha
  | function hk ho hts hc hb => exact .function hk ho hts hc hb

end MonkeySyntax
