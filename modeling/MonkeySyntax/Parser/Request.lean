import MonkeySyntax.Parser.Grammar
import MonkeySyntax.Tree.Node

/-!
# Requests to a parser

Everything a parser can be asked, as data. Each rule of the grammar can be asked for by itself,
wherever the parser stands; it takes the current token for the one that it begins with. A request is
answered with what it read, and an answer is missing when the text was rejected.
-/

namespace MonkeySyntax

namespace Parser

/-- What a parser can be asked. -/
inductive Request where
  /-- Move on by one token. -/
  | advance
  /-- Skip the rest of a rejected statement. -/
  | synchronize
  | program
  | statement
  | letStatement
  | returnStatement
  | expressionStatement
  | block
  | identifier
  | integer
  | boolean
  | string
  | unary
  | grouped
  | array
  | conditional
  | function
  /-- Parameters, behind their opening parenthesis. -/
  | parameters
  /-- The level of the current token. -/
  | currentLevel
  /-- The level of the token after it. -/
  | peekLevel
  | currentIs (kind : TokenKind)
  | peekIs (kind : TokenKind)
  /-- Move on if the next token has the given kind, and report it otherwise. -/
  | expect (kind : TokenKind)
  /-- Report that a token of the given kind should have come next. -/
  | reportExpected (kind : TokenKind)
  /-- Report that no expression begins with the given token. -/
  | reportNoExpression (token : Token)
  | expressionList (closing : TokenKind)
  /-- An operator and its right operand, behind the given left one. -/
  | binary (left : Node)
  /-- Arguments, behind what is called. -/
  | call (callee : Node)
  | expression (floor : Nat)

/-- What a parser answers. -/
inductive Answer where
  /-- Nothing: there is nothing to tell, or the text was rejected. -/
  | nothing
  | truth (b : Bool)
  | level (l : Level)
  | node (n : Node)
  | nodes (ns : List Node)
  | program (p : Program)

variable {σ α : Type} [TokenStream σ]

/-- Read with the fuel that suffices from here. -/
def expr (p : Parser σ) : Nat → Parse σ Node :=
  Parse.expression p.fuel

omit [TokenStream σ] in
/-- Carry out an action and make its value an answer. -/
def answer (p : Parser σ) (toAnswer : α → Answer) (m : Parse σ α) : Answer × Parser σ :=
  let (value?, after) := (m.run p).result p
  ((value?.map toAnswer).getD .nothing, after)

/-- Answer one request. -/
def perform (request : Request) (p : Parser σ) : Answer × Parser σ :=
  match request with
  | .advance => (.nothing, p.advance)
  | .synchronize => p.answer .truth (Parse.synchronize p.fuel)
  | .program => p.answer .program (Parse.program p.expr p.fuel)
  | .statement => p.answer .node (Parse.statement p.expr)
  | .letStatement => p.answer .node (Parse.letStatement p.expr)
  | .returnStatement => p.answer .node (Parse.returnStatement p.expr)
  | .expressionStatement => p.answer .node (Parse.expressionStatement p.expr)
  | .block => p.answer .node (Parse.block p.expr p.fuel)
  | .identifier => p.answer .node Parse.identifier
  | .integer => p.answer .node Parse.integer
  | .boolean => p.answer .node Parse.boolean
  | .string => p.answer .node Parse.string
  | .unary => p.answer .node (Parse.unary p.expr)
  | .grouped => p.answer .node (Parse.grouped p.expr)
  | .array => p.answer .node (Parse.array p.expr p.fuel)
  | .conditional => p.answer .node (Parse.conditional p.expr p.fuel)
  | .function => p.answer .node (Parse.function p.expr p.fuel)
  | .parameters => p.answer .nodes (Parse.parameters p.fuel)
  | .currentLevel => (.level p.current.kind.level, p)
  | .peekLevel => (.level p.peek.kind.level, p)
  | .currentIs kind => (.truth (p.current.kind = kind), p)
  | .peekIs kind => (.truth (p.peek.kind = kind), p)
  | .expect kind =>
    let (value?, after) := ((Parse.expect kind).run p).result p
    (.truth value?.isSome, after)
  | .reportExpected kind => (.nothing, p.report (.expected kind p.peek))
  | .reportNoExpression token => (.nothing, p.report (.noExpression token))
  | .expressionList closing => p.answer .nodes (Parse.expressionList p.expr p.fuel closing)
  | .binary left => p.answer .node (Parse.binary p.expr left)
  | .call callee => p.answer .node (Parse.call p.expr p.fuel callee)
  | .expression floor => p.answer .node (p.expr floor)

/-- The parser after requests that are answered one after the other. -/
def performAll (requests : List Request) (p : Parser σ) : Parser σ :=
  requests.foldl (fun p request => (p.perform request).2) p

@[simp] theorem performAll_nil (p : Parser σ) : p.performAll [] = p := rfl

@[simp] theorem performAll_cons (request : Request) (requests : List Request) (p : Parser σ) :
    p.performAll (request :: requests) = (p.perform request).2.performAll requests := rfl

end Parser

end MonkeySyntax
