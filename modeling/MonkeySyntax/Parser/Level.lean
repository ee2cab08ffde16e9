import MonkeySyntax.Token

/-!
# Levels of binding

How tightly an operator holds its operands. Comparisons for equality bind least, then the order
comparisons, sums, products, the operators that stand before their operand, and a call binds its
callee most. `Level.lowest` is below all of them: it belongs to every token that is no operator.

An operand is read against a **floor**: it takes in an operator that follows it as long as the power
of the operator's level is above the floor.
-/

namespace MonkeySyntax

/-- The levels, from the loosest to the tightest. -/
inductive Level where
  | lowest
  | equals
  | lessGreater
  | sum
  | product
  /-- An operator before its operand. -/
  | unary
  | call
  deriving DecidableEq, Repr

namespace Level

/-- Every level, from the loosest to the tightest. -/
def all : List Level :=
  [lowest, equals, lessGreater, sum, product, unary, call]

/-- The number that floors are compared with. -/
def power : Level → Nat
  | lowest => 1
  | equals => 2
  | lessGreater => 3
  | sum => 4
  | product => 5
  | unary => 6
  | call => 7

/-- The upper-case name of a level. -/
def name : Level → String
  | lowest => "LOWEST"
  | equals => "EQUALS"
  | lessGreater => "LESS_GREATER"
  | sum => "SUM"
  | product => "PRODUCT"
  | unary => "PREFIX"
  | call => "CALL"

theorem power_injective {l m : Level} (h : l.power = m.power) : l = m := by
  cases l <;> cases m <;> first | rfl | exact absurd h (by decide)

theorem one_le_power (l : Level) : 1 ≤ l.power := by
  cases l <;> decide

end Level

/-- The level at which a token binds when it follows an operand. -/
def TokenKind.level : TokenKind → Level
  | .equal | .notEqual => .equals
  | .lessThan | .greaterThan => .lessGreater
  | .plus | .minus => .sum
  | .star | .slash => .product
  | .leftParen => .call
  | _ => .lowest

end MonkeySyntax
