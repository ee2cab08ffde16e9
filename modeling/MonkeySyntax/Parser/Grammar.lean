import MonkeySyntax.Numeral
import MonkeySyntax.Parser.Level
import MonkeySyntax.Parser.Recovery
import MonkeySyntax.Tree.Node

/-!
# The grammar

Every rule starts on the first token of what it reads and ends on the last one, so that the token
after it is the next to be looked at.

An expression begins with a token that has a *prefix rule*: a name, a literal, an operator before
its operand, a parenthesis, a bracket, `if` or `fn`. What the rule reads is then the left operand of
the operators that follow, each read by the *infix rule* of its token, as long as they bind more
tightly than the floor that the expression was asked for. An infix operator asks for its right
operand with its own power as the floor, so operators of one level group to the left.

Rules refer to expressions inside them through a parameter, `expr`, which reads an expression
against a floor. The recursion is closed in one place, `expression`, which recurs on fuel; the same
number bounds the rounds of the loops.

A rule that meets the wrong token rejects the text, with one diagnostic. A rejection ends the
statement that it happens in and nothing more: the loop over statements drops the statement, skips
the rest of it and goes on.
-/

namespace MonkeySyntax.Parse

variable {σ : Type} [TokenStream σ]

/-! ### Names and literals -/

/-- The current token as a name. -/
def identifier : Parse σ Node := do
  let token ← current
  pure (.identifier token token.literal)

/-- The current token as an integer. -/
def integer : Parse σ Node := do
  let token ← current
  match Numeral.value? token.literal with
  | some value => pure (.integer token (.number value))
  | none => reject (.badInteger token)

/-- The current token as a truth value. -/
def boolean : Parse σ Node := do
  let token ← current
  pure (.boolean token (token.kind = .trueKeyword))

/-- The current token as a string. -/
def string : Parse σ Node := do
  let token ← current
  pure (.string token token.literal)

/-! ### Operations -/

/-- An operator and its operand. -/
def unary (expr : Nat → Parse σ Node) : Parse σ Node := do
  let token ← current
  advance
  let right ← expr Level.unary.power
  pure (.unary token token.literal right)

/-- An operator and its right operand, behind the left one. -/
def binary (expr : Nat → Parse σ Node) (left : Node) : Parse σ Node := do
  let token ← current
  advance
  let right ← expr token.kind.level.power
  pure (.binary token left token.literal right)

/-- An expression in parentheses. -/
def grouped (expr : Nat → Parse σ Node) : Parse σ Node := do
  advance
  let inner ← expr Level.lowest.power
  expect .rightParen
  pure inner

/-! ### Lists of expressions -/

/-- One round of a list: a comma and an expression, or the end of the list. -/
def expressionsRound (expr : Nat → Parse σ Node) (items : List Node) :
    Parse σ (Round (List Node) (List Node)) := do
  let next ← peek
  if next.kind = .comma then do
    advance
    advance
    let item ← expr Level.lowest.power
    pure (.next (items ++ [item]))
  else
    pure (.stop items)

/-- Expressions between commas, up to a closing token; there may be none. -/
def expressionList (expr : Nat → Parse σ Node) (bound : Nat) (closing : TokenKind) :
    Parse σ (List Node) := do
  let next ← peek
  if next.kind = closing then do
    advance
    pure []
  else do
    advance
    let item ← expr Level.lowest.power
    let items ← rounds (expressionsRound expr) bound [item]
    expect closing
    pure items

/-- Expressions in brackets. -/
def array (expr : Nat → Parse σ Node) (bound : Nat) : Parse σ Node := do
  let token ← current
  let elements ← expressionList expr bound .rightBracket
  pure (.array token elements)

/-- Arguments in parentheses, behind what is called. -/
def call (expr : Nat → Parse σ Node) (bound : Nat) (callee : Node) : Parse σ Node := do
  let token ← current
  let arguments ← expressionList expr bound .rightParen
  pure (.call token callee arguments)

/-! ### Statements -/

/-- Pass a semicolon, if one comes next. -/
def optionalSemicolon : Parse σ Unit := do
  let next ← peek
  if next.kind = .semicolon then advance else pure ()

/-- `let`, a name, `=` and an expression. -/
def letStatement (expr : Nat → Parse σ Node) : Parse σ Node := do
  let token ← current
  expect .identifier
  let name ← identifier
  expect .assign
  advance
  let value ← expr Level.lowest.power
  optionalSemicolon
  pure (.letStatement token name value)

/-- `return` and an expression. -/
def returnStatement (expr : Nat → Parse σ Node) : Parse σ Node := do
  let token ← current
  advance
  let value ← expr Level.lowest.power
  optionalSemicolon
  pure (.returnStatement token value)

/-- An expression in the place of a statement. -/
def expressionStatement (expr : Nat → Parse σ Node) : Parse σ Node := do
  let token ← current
  let expression ← expr Level.lowest.power
  optionalSemicolon
  pure (.expressionStatement token expression)

/-- A statement of any kind: its first token tells which. -/
def statement (expr : Nat → Parse σ Node) : Parse σ Node := do
  let token ← current
  match token.kind with
  | .letKeyword => letStatement expr
  | .returnKeyword => returnStatement expr
  | _ => expressionStatement expr

/-- One round of a sequence of statements. A statement that is rejected is dropped and the rest of
it skipped; if that stops on a brace that ends the sequence, the brace is left for the next round to
see. -/
def statementsRound (expr : Nat → Parse σ Node) (fuel : Nat) (ends : TokenKind → Bool)
    (before : List Node) : Parse σ (Round (List Node) (List Node)) := do
  let token ← current
  if ends token.kind then
    pure (.stop before)
  else do
    match ← attempt (statement expr) with
    | some this => do
      -- The statement ends on its last token, so this one is passed as well.
      advance
      pure (.next (before ++ [this]))
    | none => do
      let onOuterBrace ← synchronize fuel
      -- In a program no brace ends the sequence, and a stray one is passed.
      if onOuterBrace ∧ ends .rightBrace then
        pure (.next before)
      else do
        advance
        pure (.next before)

/-- Statements up to a token that ends them. -/
def statements (expr : Nat → Parse σ Node) (fuel : Nat) (ends : TokenKind → Bool) :
    Parse σ (List Node) :=
  rounds (statementsRound expr fuel ends) fuel []

/-- The end of the input ends a program. -/
def endsProgram (kind : TokenKind) : Bool :=
  kind = .eof

/-- A closing brace ends a block, and so does the end of the input. -/
def endsBlock (kind : TokenKind) : Bool :=
  kind = .rightBrace || kind = .eof

/-- Statements between braces; the current token is taken for the opening one. -/
def block (expr : Nat → Parse σ Node) (fuel : Nat) : Parse σ Node := do
  let token ← current
  advance
  let body ← statements expr fuel endsBlock
  closeBlock
  pure (.block token body)

/-- The statements of a program, up to the end of the input. -/
def program (expr : Nat → Parse σ Node) (fuel : Nat) : Parse σ Program := do
  let body ← statements expr fuel endsProgram
  pure ⟨body⟩

/-! ### Conditionals and functions -/

/-- `else` and a block, if `else` comes next. -/
def alternative (expr : Nat → Parse σ Node) (fuel : Nat) : Parse σ (Option Node) := do
  let next ← peek
  if next.kind = .elseKeyword then do
    advance
    expect .leftBrace
    let body ← block expr fuel
    pure (some body)
  else
    pure none

/-- `if`, a condition in parentheses, and one or two blocks. -/
def conditional (expr : Nat → Parse σ Node) (fuel : Nat) : Parse σ Node := do
  let token ← current
  expect .leftParen
  advance
  let condition ← expr Level.lowest.power
  expect .rightParen
  expect .leftBrace
  let consequence ← block expr fuel
  let otherwise ← alternative expr fuel
  pure (.conditional token condition consequence otherwise)

/-- One round of a list of parameters: a comma and a name, or the end of the list. -/
def parametersRound (names : List Node) : Parse σ (Round (List Node) (List Node)) := do
  let next ← peek
  if next.kind = .comma then do
    advance
    expect .identifier
    let name ← identifier
    pure (.next (names ++ [name]))
  else
    pure (.stop names)

/-- Names between commas, up to the closing parenthesis; there may be none. -/
def parameters (bound : Nat) : Parse σ (List Node) := do
  let next ← peek
  if next.kind = .rightParen then do
    advance
    pure []
  else do
    expect .identifier
    let name ← identifier
    let names ← rounds parametersRound bound [name]
    expect .rightParen
    pure names

/-- `fn`, parameters in parentheses, and a block. -/
def function (expr : Nat → Parse σ Node) (fuel : Nat) : Parse σ Node := do
  let token ← current
  expect .leftParen
  let names ← parameters fuel
  expect .leftBrace
  let body ← block expr fuel
  pure (.function token names body)

/-! ### Expressions -/

/-- The rule for an expression that begins with a token of the given kind. -/
def prefixRule (expr : Nat → Parse σ Node) (fuel : Nat) : TokenKind → Option (Parse σ Node)
  | .identifier => some identifier
  | .int => some integer
  | .trueKeyword | .falseKeyword => some boolean
  | .string => some string
  | .bang | .minus => some (unary expr)
  | .leftParen => some (grouped expr)
  | .leftBracket => some (array expr fuel)
  | .ifKeyword => some (conditional expr fuel)
  | .functionKeyword => some (function expr fuel)
  | _ => none

/-- The rule for what follows a left operand, beginning with a token of the given kind. -/
def infixRule (expr : Nat → Parse σ Node) (fuel : Nat) :
    TokenKind → Option (Node → Parse σ Node)
  | .plus | .minus | .star | .slash | .equal | .notEqual | .lessThan | .greaterThan =>
    some (binary expr)
  | .leftParen => some (call expr fuel)
  | _ => none

/-- One round of reading operators behind a left operand: the operand grows by an operator that
binds more tightly than the floor, or is complete. -/
def operatorsRound (expr : Nat → Parse σ Node) (fuel floor : Nat) (left : Node) :
    Parse σ (Round Node Node) := do
  let next ← peek
  if next.kind ≠ .semicolon ∧ floor < next.kind.level.power then
    match infixRule expr fuel next.kind with
    -- A token without a rule has the lowest level, so this takes a floor below all levels.
    | none => pure (.stop left)
    | some rule => do
      advance
      let wider ← rule left
      pure (.next wider)
  else
    pure (.stop left)

/-- An expression that takes in the operators which bind more tightly than the floor. -/
def expression : (fuel : Nat) → (floor : Nat) → Parse σ Node
  | 0, _ => outOfFuel
  | fuel + 1, floor => do
    let token ← current
    match prefixRule (expression fuel) (fuel + 1) token.kind with
    | none => reject (.noExpression token)
    | some rule => do
      let left ← rule
      rounds (operatorsRound (expression fuel) (fuel + 1) floor) (fuel + 1) left

end MonkeySyntax.Parse
