import MonkeySyntax.Token

/-!
# Diagnostics

What can be wrong with a program text. There are three causes, and each names the token at which it
was found; the message gives the token's place.
-/

namespace MonkeySyntax

/-- A reason for giving up a statement. -/
inductive Diagnostic where
  /-- A token of the given kind should have come next, and not this one. -/
  | expected (kind : TokenKind) (found : Token)
  /-- No expression begins with this token. -/
  | noExpression (found : Token)
  /-- The token is no numeral, or its number is out of range. -/
  | badInteger (found : Token)
  deriving DecidableEq, Repr

namespace Diagnostic

/-- The token at which the fault was found. -/
def token : Diagnostic → Token
  | expected _ t | noExpression t | badInteger t => t

/-- What is wrong, without the place. -/
def complaint : Diagnostic → String
  | expected kind t =>
    "expected next token to be " ++ kind.display ++ ", but got " ++ t.kind.display ++ " instead"
  | noExpression t => "no prefix parse function for " ++ t.kind.display ++ " found"
  | badInteger t => "could not parse \"" ++ t.literal ++ "\" as integer"

/-- The place, as messages give it. -/
def placeText (t : Token) : String :=
  " at line " ++ toString t.line ++ ", col " ++ toString t.col

/-- The message: what is wrong, and where. -/
def message (d : Diagnostic) : String :=
  d.complaint ++ placeText d.token

end Diagnostic

end MonkeySyntax
