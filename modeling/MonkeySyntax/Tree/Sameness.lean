import MonkeySyntax.Tree.Node

/-!
# Sameness of trees

Two trees are the same when they are built in the same way from the same names, values and
operators. The tokens they come from do not matter: not where they stand, and not how a value was
written. So `05` and `5` are the same number, and a program is the same however it is laid out. A
truth value in the place of a number is the number that it counts as. `==` on nodes and on programs
means sameness.
-/

namespace MonkeySyntax

namespace Node

mutual

/-- The trees agree in all but their tokens. -/
def same : Node → Node → Bool
  | bare family _, n => match n with
    | bare family' _ => family == family'
    | _ => false
  | text value, n => match n with
    | text value' => value == value'
    | _ => false
  | program statements, n => match n with
    | program statements' => sameEach statements statements'
    | _ => false
  | identifier _ name, n => match n with
    | identifier _ name' => name == name'
    | _ => false
  | integer _ value, n => match n with
    | integer _ value' => value.toInt == value'.toInt
    | _ => false
  | boolean _ value, n => match n with
    | boolean _ value' => value == value'
    | _ => false
  | string _ value, n => match n with
    | string _ value' => value == value'
    | _ => false
  | array _ elements, n => match n with
    | array _ elements' => sameEach elements elements'
    | _ => false
  | unary _ operator right, n => match n with
    | unary _ operator' right' => operator == operator' && right.same right'
    | _ => false
  | binary _ left operator right, n => match n with
    | binary _ left' operator' right' =>
      left.same left' && operator == operator' && right.same right'
    | _ => false
  | conditional _ condition consequence none, n => match n with
    | conditional _ condition' consequence' none =>
      condition.same condition' && consequence.same consequence'
    | _ => false
  | conditional _ condition consequence (some alternative), n => match n with
    | conditional _ condition' consequence' (some alternative') =>
      condition.same condition' && consequence.same consequence' && alternative.same alternative'
    | _ => false
  | function _ parameters body, n => match n with
    | function _ parameters' body' => sameEach parameters parameters' && body.same body'
    | _ => false
  | call _ callee arguments, n => match n with
    | call _ callee' arguments' => callee.same callee' && sameEach arguments arguments'
    | _ => false
  | letStatement _ name value, n => match n with
    | letStatement _ name' value' => name.same name' && value.same value'
    | _ => false
  | returnStatement _ value, n => match n with
    | returnStatement _ value' => value.same value'
    | _ => false
  | expressionStatement _ expression, n => match n with
    | expressionStatement _ expression' => expression.same expression'
    | _ => false
  | block _ statements, n => match n with
    | block _ statements' => sameEach statements statements'
    | _ => false

/-- Equally many trees, each the same as the one at its place. -/
def sameEach : List Node → List Node → Bool
  | [], ns => ns.isEmpty
  | m :: ms, ns => match ns with
    | [] => false
    | n :: ns => m.same n && sameEach ms ns

end

instance : BEq Node := ⟨same⟩

theorem beq_eq_same (m n : Node) : (m == n) = m.same n := rfl

@[simp] theorem sameEach_nil_nil : sameEach [] [] = true := rfl

@[simp] theorem sameEach_cons_cons (m n : Node) (ms ns : List Node) :
    sameEach (m :: ms) (n :: ns) = (m.same n && sameEach ms ns) := rfl

/-! ### Sameness, form by form -/

section Forms

variable (t t' : Token) (m m' n n' o o' : Node) (ms ns : List Node) (x y : String)

@[simp] theorem same_program : (program ms).same (program ns) = sameEach ms ns := rfl

@[simp] theorem same_identifier : (identifier t x).same (identifier t' y) = (x == y) := rfl

@[simp] theorem same_integer (i j : Whole) :
    (integer t i).same (integer t' j) = (i.toInt == j.toInt) := rfl

@[simp] theorem same_boolean (a b : Bool) : (boolean t a).same (boolean t' b) = (a == b) := rfl

@[simp] theorem same_string : (string t x).same (string t' y) = (x == y) := rfl

@[simp] theorem same_array : (array t ms).same (array t' ns) = sameEach ms ns := rfl

@[simp] theorem same_unary : (unary t x m).same (unary t' y n) = (x == y && m.same n) := rfl

@[simp] theorem same_binary :
    (binary t m x n).same (binary t' m' y n') = (m.same m' && x == y && n.same n') := rfl

@[simp] theorem same_conditional_none :
    (conditional t m n none).same (conditional t' m' n' none) = (m.same m' && n.same n') := rfl

@[simp] theorem same_conditional_some :
    (conditional t m n (some o)).same (conditional t' m' n' (some o')) =
      (m.same m' && n.same n' && o.same o') := rfl

@[simp] theorem same_function :
    (function t ms m).same (function t' ns n) = (sameEach ms ns && m.same n) := rfl

@[simp] theorem same_call :
    (call t m ms).same (call t' n ns) = (m.same n && sameEach ms ns) := rfl

@[simp] theorem same_letStatement :
    (letStatement t m n).same (letStatement t' m' n') = (m.same m' && n.same n') := rfl

@[simp] theorem same_returnStatement :
    (returnStatement t m).same (returnStatement t' n) = m.same n := rfl

@[simp] theorem same_expressionStatement :
    (expressionStatement t m).same (expressionStatement t' n) = m.same n := rfl

@[simp] theorem same_block : (block t ms).same (block t' ns) = sameEach ms ns := rfl

end Forms

end Node

namespace Program

/-- The programs have the same statements. -/
def same (p q : Program) : Bool :=
  p.toNode.same q.toNode

instance : BEq Program := ⟨same⟩

theorem beq_eq_same (p q : Program) : (p == q) = p.same q := rfl

end Program

end MonkeySyntax
