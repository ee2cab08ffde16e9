import MonkeySyntax.Parser.Diagnostic
import MonkeySyntax.Tree.Sameness

/-!
# Trees and diagnostics with other tokens

Two texts that differ in where their tokens stand are read as trees that differ in the same way. To
say so, the tokens of a tree are exchanged one by one (`Node.mapTokens`), and likewise the token
that a diagnostic names (`Diagnostic.mapToken`).
-/

namespace MonkeySyntax

namespace Node

mutual

/-- The tree with every token replaced by its image. -/
def mapTokens (f : Token → Token) : Node → Node
  | bare family t => bare family (f t)
  | text value => text value
  | program statements => program (mapTokensEach f statements)
  | identifier t name => identifier (f t) name
  | integer t value => integer (f t) value
  | boolean t value => boolean (f t) value
  | string t value => string (f t) value
  | array t elements => array (f t) (mapTokensEach f elements)
  | unary t operator right => unary (f t) operator (right.mapTokens f)
  | binary t left operator right => binary (f t) (left.mapTokens f) operator (right.mapTokens f)
  | conditional t condition consequence none =>
    conditional (f t) (condition.mapTokens f) (consequence.mapTokens f) none
  | conditional t condition consequence (some alternative) =>
    conditional (f t) (condition.mapTokens f) (consequence.mapTokens f)
      (some (alternative.mapTokens f))
  | function t parameters body => function (f t) (mapTokensEach f parameters) (body.mapTokens f)
  | call t callee arguments => call (f t) (callee.mapTokens f) (mapTokensEach f arguments)
  | letStatement t name value => letStatement (f t) (name.mapTokens f) (value.mapTokens f)
  | returnStatement t value => returnStatement (f t) (value.mapTokens f)
  | expressionStatement t expression => expressionStatement (f t) (expression.mapTokens f)
  | block t statements => block (f t) (mapTokensEach f statements)

/-- The trees with every token replaced by its image. -/
def mapTokensEach (f : Token → Token) : List Node → List Node
  | [] => []
  | n :: ns => n.mapTokens f :: mapTokensEach f ns

end

theorem mapTokensEach_eq_map (f : Token → Token) (ns : List Node) :
    mapTokensEach f ns = ns.map (mapTokens f) := by
  induction ns with
  | nil => rfl
  | cons n ns ih => rw [mapTokensEach, ih, List.map_cons]

@[simp] theorem mapTokensEach_nil (f : Token → Token) : mapTokensEach f [] = [] := rfl

@[simp] theorem mapTokensEach_append (f : Token → Token) (ms ns : List Node) :
    mapTokensEach f (ms ++ ns) = mapTokensEach f ms ++ mapTokensEach f ns := by
  simp [mapTokensEach_eq_map]

mutual

/-- Nothing changes when no token does. -/
theorem mapTokens_id : ∀ n : Node, n.mapTokens id = n
  | bare .. | text _ | identifier .. | integer .. | boolean .. | string .. => rfl
  | program statements => by rw [mapTokens, mapTokensEach_id statements]
  | array t elements => by rw [mapTokens, mapTokensEach_id elements, id]
  | unary t operator right => by rw [mapTokens, mapTokens_id right, id]
  | binary t left operator right => by rw [mapTokens, mapTokens_id left, mapTokens_id right, id]
  | conditional t condition consequence none => by
    rw [mapTokens, mapTokens_id condition, mapTokens_id consequence, id]
  | conditional t condition consequence (some alternative) => by
    rw [mapTokens, mapTokens_id condition, mapTokens_id consequence, mapTokens_id alternative, id]
  | function t parameters body => by
    rw [mapTokens, mapTokensEach_id parameters, mapTokens_id body, id]
  | call t callee arguments => by
    rw [mapTokens, mapTokens_id callee, mapTokensEach_id arguments, id]
  | letStatement t name value => by rw [mapTokens, mapTokens_id name, mapTokens_id value, id]
  | returnStatement t value => by rw [mapTokens, mapTokens_id value, id]
  | expressionStatement t expression => by rw [mapTokens, mapTokens_id expression, id]
  | block t statements => by rw [mapTokens, mapTokensEach_id statements, id]

theorem mapTokensEach_id : ∀ ns : List Node, mapTokensEach id ns = ns
  | [] => rfl
  | n :: ns => by rw [mapTokensEach, mapTokens_id n, mapTokensEach_id ns]

end

end Node

namespace Diagnostic

/-- The diagnostic with its token replaced. -/
def mapToken (f : Token → Token) : Diagnostic → Diagnostic
  | expected kind t => expected kind (f t)
  | noExpression t => noExpression (f t)
  | badInteger t => badInteger (f t)

@[simp] theorem mapToken_expected (f : Token → Token) (kind : TokenKind) (t : Token) :
    (expected kind t).mapToken f = expected kind (f t) := rfl

@[simp] theorem mapToken_noExpression (f : Token → Token) (t : Token) :
    (noExpression t).mapToken f = noExpression (f t) := rfl

@[simp] theorem mapToken_badInteger (f : Token → Token) (t : Token) :
    (badInteger t).mapToken f = badInteger (f t) := rfl

@[simp] theorem mapToken_id (d : Diagnostic) : d.mapToken id = d := by
  cases d <;> rfl

end Diagnostic

end MonkeySyntax
