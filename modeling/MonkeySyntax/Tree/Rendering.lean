import MonkeySyntax.Tree.Node

/-!
# The canonical text of a tree

A tree is rendered as program text in which every operation stands in parentheses, so that `a + b *
c` becomes `(a + (b * c))`. Names and literals appear as they were written: an identifier by its
name, numbers, truth values and strings by the literal of their token (a string without its quotes),
and a text in the place of a node by itself. Statements follow one another without separators, and
blocks are rendered without braces, so not every text can be read back.

Bare nodes have no text: `render` passes over them, and `render?` refuses a tree that contains one.
-/

namespace MonkeySyntax

namespace Node

mutual

/-- The canonical text of a tree. -/
def render : Node → String
  | bare .. => ""
  | text value => value
  | program statements => String.join (renderEach statements)
  | identifier _ name => name
  | integer t _ | boolean t _ | string t _ => t.literal
  | array _ elements => "[" ++ ", ".intercalate (renderEach elements) ++ "]"
  | unary _ operator right => "(" ++ operator ++ right.render ++ ")"
  | binary _ left operator right =>
    "(" ++ left.render ++ " " ++ operator ++ " " ++ right.render ++ ")"
  | conditional _ condition consequence none => "if" ++ condition.render ++ " " ++ consequence.render
  | conditional _ condition consequence (some alternative) =>
    "if" ++ condition.render ++ " " ++ consequence.render ++ "else " ++ alternative.render
  | function t parameters body =>
    t.literal ++ "(" ++ ", ".intercalate (renderEach parameters) ++ ") " ++ body.render
  | call _ callee arguments =>
    callee.render ++ "(" ++ ", ".intercalate (renderEach arguments) ++ ")"
  | letStatement t name value => t.literal ++ " " ++ name.render ++ " = " ++ value.render ++ ";"
  | returnStatement t value => t.literal ++ " " ++ value.render ++ ";"
  | expressionStatement _ expression => expression.render
  | block _ statements => String.join (renderEach statements)

/-- The canonical texts of several trees. -/
def renderEach : List Node → List String
  | [] => []
  | n :: ns => n.render :: renderEach ns

end

@[simp] theorem renderEach_eq_map (ns : List Node) : renderEach ns = ns.map render := by
  induction ns with
  | nil => rfl
  | cons n ns ih => simp [renderEach, ih]

mutual

/-- No bare node occurs in the tree. -/
def isConcrete : Node → Bool
  | bare .. => false
  | text _ | identifier .. | integer .. | boolean .. | string .. => true
  | program statements => allConcrete statements
  | array _ elements => allConcrete elements
  | unary _ _ right => right.isConcrete
  | binary _ left _ right => left.isConcrete && right.isConcrete
  | conditional _ condition consequence none => condition.isConcrete && consequence.isConcrete
  | conditional _ condition consequence (some alternative) =>
    condition.isConcrete && consequence.isConcrete && alternative.isConcrete
  | function _ parameters body => allConcrete parameters && body.isConcrete
  | call _ callee arguments => callee.isConcrete && allConcrete arguments
  | letStatement _ name value => name.isConcrete && value.isConcrete
  | returnStatement _ value => value.isConcrete
  | expressionStatement _ expression => expression.isConcrete
  | block _ statements => allConcrete statements

/-- No bare node occurs in any of the trees. -/
def allConcrete : List Node → Bool
  | [] => true
  | n :: ns => n.isConcrete && allConcrete ns

end

@[simp] theorem allConcrete_eq_all (ns : List Node) : allConcrete ns = ns.all isConcrete := by
  induction ns with
  | nil => rfl
  | cons n ns ih => simp [allConcrete, ih]

/-- The canonical text of a tree without bare nodes. -/
def render? (n : Node) : Option String :=
  if n.isConcrete then some n.render else none

end Node

namespace Program

/-- The canonical text of a program: those of its statements, joined. -/
def render (p : Program) : String :=
  p.toNode.render

theorem render_eq_join (p : Program) : p.render = String.join (p.statements.map Node.render) := by
  rw [render, toNode, Node.render, Node.renderEach_eq_map]

end Program

end MonkeySyntax
