import MonkeySyntax.Json
import MonkeySyntax.Numeral
import MonkeySyntax.Text.Quoted
import MonkeySyntax.Tree.Node

/-!
# Outlines of trees

What a tree is made of, spelled out: each node becomes a record that carries the name of its kind,
its place, and its parts under their names. An outline is shown in two ways. Its **debugging text**
is one line, `Kind(part=…, part=…)`, without the places; its **JSON form** is an object that gives
kind, line and column first and then the parts. A whole program has no place of its own.

An outline is not a picture of the token: of a number it keeps the value and not the notation.

Not every tree that can be put together can be shown in both ways. It has no debugging text if some
number in it has more digits than can be written; then `Node.debugText?` has no result. And it has
no JSON form if there is a mere text among the statements of a program, which are objects, or if a
program is a part of anything but a program. `Node.jsonFault?` tells whether one of these rules is
broken, and `Node.toJson` does not look.
-/

namespace MonkeySyntax

/-- The make-up of a tree. -/
inductive Outline where
  /-- A part that is left out. -/
  | absent
  | truth (value : Bool)
  | number (value : Int)
  | text (value : String)
  | sequence (items : List Outline)
  /-- A node: the name of its kind, line and column if it has a place, and its parts. -/
  | record (kind : String) (place : Option (Int × Int)) (parts : List (String × Outline))

namespace Outline

/-- Texts between parentheses; a single one is followed by a comma. -/
def tupleText : List String → String
  | [only] => "(" ++ only ++ ",)"
  | items => "(" ++ ", ".intercalate items ++ ")"

/-- Texts between parentheses behind the name of a kind. -/
def recordText (kind : String) (items : List String) : String :=
  kind ++ "(" ++ ", ".intercalate items ++ ")"

mutual

/-- The debugging text, if every number can be written. -/
def debugText? : Outline → Option String
  | absent => some "None"
  | truth true => some "True"
  | truth false => some "False"
  | number value => Numeral.decimalText? value
  | text value => some (Text.quoted value)
  | sequence items => (debugTexts? items).map tupleText
  | record kind _ parts => (partTexts? parts).map (recordText kind)

/-- The debugging texts of several outlines. -/
def debugTexts? : List Outline → Option (List String)
  | [] => some []
  | item :: items => item.debugText?.bind fun text => (debugTexts? items).map (text :: ·)

/-- Named parts, each as `name=…`. -/
def partTexts? : List (String × Outline) → Option (List String)
  | [] => some []
  | (name, value) :: parts =>
    value.debugText?.bind fun text => (partTexts? parts).map ((name ++ "=" ++ text) :: ·)

end

/-- The members that tell where a node stands. -/
def placeMembers : Option (Int × Int) → List (String × Json)
  | none => []
  | some (line, col) => [("line", .number line), ("col", .number col)]

mutual

/-- The JSON form. -/
def toJson : Outline → Json
  | absent => .null
  | truth value => .bool value
  | number value => .number value
  | text value => .string value
  | sequence items => .array (toJsons items)
  | record kind place parts =>
    .object (("kind", .string kind) :: (placeMembers place ++ partMembers parts))

/-- The JSON forms of several outlines. -/
def toJsons : List Outline → List Json
  | [] => []
  | item :: items => item.toJson :: toJsons items

/-- Named parts as members of an object. -/
def partMembers : List (String × Outline) → List (String × Json)
  | [] => []
  | (name, value) :: parts => (name, value.toJson) :: partMembers parts

end

@[simp] theorem toJsons_eq_map (items : List Outline) : toJsons items = items.map toJson := by
  induction items with
  | nil => rfl
  | cons item items ih => simp [toJsons, ih]

@[simp] theorem partMembers_eq_map (parts : List (String × Outline)) :
    partMembers parts = parts.map fun part => (part.1, part.2.toJson) := by
  induction parts with
  | nil => rfl
  | cons part parts ih => simp [partMembers, ih]

end Outline

/-- The outline of the value of an integer. -/
def Whole.outline : Whole → Outline
  | number value => .number value
  | truth value => .truth value

namespace Node

/-- Line and column of the token that a node was built from. -/
def place? (n : Node) : Option (Int × Int) :=
  n.token?.map fun t => (t.line, t.col)

/-- The outline of a node whose parts are known. -/
def assemble (n : Node) (parts : List (String × Outline)) : Outline :=
  match n with
  | text value => .text value
  | n => .record n.kindName n.place? parts

mutual

/-- The parts of a node, each under its name. -/
def parts : Node → List (String × Outline)
  | bare .. | text _ => []
  | program statements => [("statements", .sequence (outlines statements))]
  | identifier _ name => [("value", .text name)]
  | integer _ value => [("value", value.outline)]
  | boolean _ value => [("value", .truth value)]
  | string _ value => [("value", .text value)]
  | array _ elements => [("elements", .sequence (outlines elements))]
  | unary _ operator right => [("operator", .text operator), ("right", assemble right right.parts)]
  | binary _ left operator right =>
    [("left", assemble left left.parts), ("operator", .text operator),
      ("right", assemble right right.parts)]
  | conditional _ condition consequence none =>
    [("condition", assemble condition condition.parts),
      ("consequence", assemble consequence consequence.parts), ("alternative", .absent)]
  | conditional _ condition consequence (some alternative) =>
    [("condition", assemble condition condition.parts),
      ("consequence", assemble consequence consequence.parts),
      ("alternative", assemble alternative alternative.parts)]
  | function _ parameters body =>
    [("parameters", .sequence (outlines parameters)), ("body", assemble body body.parts)]
  | call _ callee arguments =>
    [("function", assemble callee callee.parts), ("arguments", .sequence (outlines arguments))]
  | letStatement _ name value =>
    [("name", assemble name name.parts), ("value", assemble value value.parts)]
  | returnStatement _ value => [("return_value", assemble value value.parts)]
  | expressionStatement _ expression => [("expression", assemble expression expression.parts)]
  | block _ statements => [("statements", .sequence (outlines statements))]

/-- The outlines of several trees. -/
def outlines : List Node → List Outline
  | [] => []
  | n :: ns => assemble n n.parts :: outlines ns

end

/-- The outline of a tree. -/
def outline (n : Node) : Outline :=
  assemble n n.parts

@[simp] theorem assemble_parts (n : Node) : assemble n n.parts = n.outline := rfl

@[simp] theorem outlines_eq_map (ns : List Node) : outlines ns = ns.map outline := by
  induction ns with
  | nil => rfl
  | cons n ns ih => simp [outlines, ih]

/-- The debugging text of a tree, if every number in it can be written. -/
def debugText? (n : Node) : Option String :=
  n.outline.debugText?

/-- The JSON form of a tree. -/
def toJson (n : Node) : Json :=
  n.outline.toJson

end Node

/-- Why a tree has no JSON form. -/
inductive JsonFault where
  /-- A statement of a program is a mere text. -/
  | textAsStatement
  /-- A program is a part of something that is no program. -/
  | programAsPart
  deriving DecidableEq, Repr

namespace Node

/-- What is wrong about one tree right below another. -/
def faultBetween? : (parent child : Node) → Option JsonFault
  | program _, text _ => some .textAsStatement
  | program _, _ => none
  | _, program _ => some .programAsPart
  | _, _ => none

/-- All that keeps a tree from having a JSON form. What is at fault itself is not looked into. -/
def jsonFaults (n : Node) : List JsonFault :=
  n.children.attach.flatMap fun child =>
    match n.faultBetween? child.1 with
    | some fault => [fault]
    | none => child.1.jsonFaults
termination_by n
decreasing_by exact sizeOf_lt_of_mem_children child.2

/-- What keeps a tree from having a JSON form. A text among statements counts first. -/
def jsonFault? (n : Node) : Option JsonFault :=
  if .textAsStatement ∈ n.jsonFaults then some .textAsStatement else n.jsonFaults.head?

end Node

namespace Program

/-- The debugging text of a program, if every number in it can be written. -/
def debugText? (p : Program) : Option String :=
  p.toNode.debugText?

/-- The JSON form of a program. -/
def toJson (p : Program) : Json :=
  p.toNode.toJson

end Program

end MonkeySyntax
