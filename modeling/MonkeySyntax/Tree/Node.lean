import MonkeySyntax.Token

/-!
# Syntax trees

A node records the token it was built from and, in its constructor, what it is made of. Nothing ties
the two together here, nor a node's children to its kind: trees may be built by hand from any parts,
and every function on trees is defined for all of them. What holds of the trees that the parser
builds is a theorem about the parser.

The bare nodes stand for the three families as such, *node*, *statement* and *expression*. They have
no parts and no text of their own, so a tree that contains one cannot be rendered. In the place of a
node there may also be a mere text, or a whole program; these two come from no token.
-/

namespace MonkeySyntax

/-- The families of nodes. -/
inductive Family where
  | node
  | statement
  | expression
  deriving DecidableEq, Repr

/-- What may stand as the value of an integer. A truth value is a number as well. -/
inductive Whole where
  | number (value : Int)
  | truth (value : Bool)
  deriving DecidableEq, Repr

/-- The number that a value counts as: a truth value is one or zero. -/
def Whole.toInt : Whole → Int
  | number value => value
  | truth value => value.toInt

/-- A syntax tree. Each constructor begins with the token that the node was built from, if there is
one. -/
inductive Node where
  /-- A node of which only the family is known. -/
  | bare (family : Family) (token : Token)
  /-- A text in the place of a node. -/
  | text (value : String)
  /-- A sequence of statements that stands by itself. -/
  | program (statements : List Node)
  | identifier (token : Token) (name : String)
  /-- An integer; the token keeps the notation it was written in. -/
  | integer (token : Token) (value : Whole)
  | boolean (token : Token) (value : Bool)
  /-- A string, without its quotes. -/
  | string (token : Token) (value : String)
  | array (token : Token) (elements : List Node)
  /-- An operator before its operand. -/
  | unary (token : Token) (operator : String) (right : Node)
  /-- An operator between its operands; its token is the operator's. -/
  | binary (token : Token) (left : Node) (operator : String) (right : Node)
  /-- `if`, with the block to run otherwise, if there is one. -/
  | conditional (token : Token) (condition consequence : Node) (alternative : Option Node)
  | function (token : Token) (parameters : List Node) (body : Node)
  /-- A call; its token is the parenthesis that opens the arguments. -/
  | call (token : Token) (callee : Node) (arguments : List Node)
  | letStatement (token : Token) (name value : Node)
  | returnStatement (token : Token) (value : Node)
  /-- An expression in the place of a statement; its token is the first of the expression. -/
  | expressionStatement (token : Token) (expression : Node)
  /-- Statements between braces; its token is the opening brace. -/
  | block (token : Token) (statements : List Node)

namespace Node

instance : Inhabited Node := ⟨.bare .node default⟩

/-- The token that the node was built from. -/
def token? : Node → Option Token
  | text _ | program _ => none
  | bare _ t | identifier t _ | integer t _ | boolean t _ | string t _ | array t _ | unary t _ _
  | binary t _ _ _ | conditional t _ _ _ | function t _ _ | call t _ _ | letStatement t _ _
  | returnStatement t _ | expressionStatement t _ | block t _ => some t

/-- The literal of the token that the node was built from; of a program, that of its first
statement, and of an empty program the empty text. A text has none. -/
def tokenLiteral? : Node → Option String
  | program [] => some ""
  | program (first :: _) => first.tokenLiteral?
  | n => n.token?.map Token.literal

/-- The name of the node's kind. -/
def kindName : Node → String
  | bare .node _ => "Node"
  | bare .statement _ => "Statement"
  | bare .expression _ => "Expression"
  | text _ => "Text"
  | program _ => "Program"
  | identifier .. => "Identifier"
  | integer .. => "IntegerLiteral"
  | boolean .. => "BooleanLiteral"
  | string .. => "StringLiteral"
  | array .. => "ArrayLiteral"
  | unary .. => "PrefixExpression"
  | binary .. => "InfixExpression"
  | conditional .. => "IfExpression"
  | function .. => "FunctionLiteral"
  | call .. => "CallExpression"
  | letStatement .. => "LetStatement"
  | returnStatement .. => "ReturnStatement"
  | expressionStatement .. => "ExpressionStatement"
  | block .. => "BlockStatement"

/-- The nodes right below a node, from left to right. -/
def children : Node → List Node
  | bare .. | text _ | identifier .. | integer .. | boolean .. | string .. => []
  | program statements => statements
  | array _ elements => elements
  | unary _ _ right => [right]
  | binary _ left _ right => [left, right]
  | conditional _ condition consequence alternative =>
    condition :: consequence :: alternative.toList
  | function _ parameters body => parameters ++ [body]
  | call _ callee arguments => callee :: arguments
  | letStatement _ name value => [name, value]
  | returnStatement _ value => [value]
  | expressionStatement _ expression => [expression]
  | block _ statements => statements

mutual

/-- **Induction on trees.** A property that each node inherits from its children holds of all
nodes. -/
theorem inductionOnChildren {P : Node → Prop} (step : ∀ n, (∀ c ∈ n.children, P c) → P n) :
    ∀ n, P n
  | bare .. | text _ | identifier .. | integer .. | boolean .. | string .. =>
    step _ (by simp [children])
  | program statements => step _ (inductionOnAll step statements)
  | array _ elements => step _ (inductionOnAll step elements)
  | unary _ _ right => step _ (by
      simpa [children] using inductionOnChildren step right)
  | binary _ left _ right => step _ (by
      simpa [children] using ⟨inductionOnChildren step left, inductionOnChildren step right⟩)
  | conditional _ condition consequence none => step _ (by
      simpa [children] using
        ⟨inductionOnChildren step condition, inductionOnChildren step consequence⟩)
  | conditional _ condition consequence (some alternative) => step _ (by
      simpa [children] using
        ⟨inductionOnChildren step condition, inductionOnChildren step consequence,
          inductionOnChildren step alternative⟩)
  | function _ parameters body => step _ (by
      have hp := inductionOnAll step parameters
      have hb := inductionOnChildren step body
      intro c hc
      simp only [children, List.mem_append, List.mem_singleton] at hc
      rcases hc with hc | rfl
      · exact hp c hc
      · exact hb)
  | call _ callee arguments => step _ (by
      have hf := inductionOnChildren step callee
      have ha := inductionOnAll step arguments
      intro c hc
      simp only [children, List.mem_cons] at hc
      rcases hc with rfl | hc
      · exact hf
      · exact ha c hc)
  | letStatement _ name value => step _ (by
      simpa [children] using ⟨inductionOnChildren step name, inductionOnChildren step value⟩)
  | returnStatement _ value => step _ (by
      simpa [children] using inductionOnChildren step value)
  | expressionStatement _ expression => step _ (by
      simpa [children] using inductionOnChildren step expression)
  | block _ statements => step _ (inductionOnAll step statements)

theorem inductionOnAll {P : Node → Prop} (step : ∀ n, (∀ c ∈ n.children, P c) → P n) :
    ∀ ns : List Node, ∀ c ∈ ns, P c
  | [] => by simp
  | n :: ns => by
    have hn := inductionOnChildren step n
    have hns := inductionOnAll step ns
    intro c hc
    rcases List.mem_cons.1 hc with rfl | hc
    · exact hn
    · exact hns c hc

end

/-- The node occurs in the tree, at any depth. -/
inductive IsIn (n : Node) : Node → Prop where
  | self : IsIn n n
  | child {m c : Node} : c ∈ m.children → IsIn n c → IsIn n m

/-- What holds of the node itself and of all that occurs below it, holds of all that occurs in it. -/
theorem forall_isIn {P : Node → Prop} {m : Node} (hself : P m)
    (hchildren : ∀ c ∈ m.children, ∀ n : Node, n.IsIn c → P n) : ∀ n : Node, n.IsIn m → P n := by
  intro n hn
  cases hn with
  | self => exact hself
  | child hc hn => exact hchildren _ hc n hn

/-- A tree is larger than what is right below it. -/
theorem sizeOf_lt_of_mem_children {n c : Node} (h : c ∈ n.children) : sizeOf c < sizeOf n := by
  have hl : ∀ ns : List Node, c ∈ ns → sizeOf c < sizeOf ns := fun _ => List.sizeOf_lt_of_mem
  cases n with
  | conditional t condition consequence alternative =>
    cases alternative <;> simp [children] at h ⊢ <;> grind
  | _ => simp [children] at h ⊢ <;> grind

end Node

/-- A whole program: its statements in order. -/
structure Program where
  statements : List Node := []

/-- A program as a tree. -/
def Program.toNode (p : Program) : Node :=
  .program p.statements

end MonkeySyntax
