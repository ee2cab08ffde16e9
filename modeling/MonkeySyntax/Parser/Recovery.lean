import MonkeySyntax.Parser.Parse

/-!
# Recovery

After a statement has been rejected, the parser skips what is left of it. Skipping ends

* on the semicolon that ends the statement;
* on the brace that closes a group opened while skipping;
* right before a closing brace or the end of the input, since these do not belong to the statement;
* at once, on a closing brace that nothing skipped has opened. This brace ends an enclosing block
  and must not be passed, which the answer `true` says.

A closing brace that ended a block of the rejected statement itself belongs to the statement, and is
passed like any other token.
-/

namespace MonkeySyntax.Parse

variable {σ : Type} [TokenStream σ]

/-- One round of skipping, inside `depth` groups that skipping has entered: either the current token
is passed, or skipping stops and tells whether it stands on a brace that must not be passed. -/
def skipRound (depth : Nat) : Parse σ (Round Nat Bool) := do
  let token ← current
  let next ← peek
  let ownBrace ← onClosed
  if token.kind = .eof then
    pure (.stop false)
  else if token.kind = .leftBrace then do
    advance
    pure (.next (depth + 1))
  else if token.kind = .rightBrace ∧ ownBrace = false then
    -- This brace closes the innermost group that skipping has entered, if there is one.
    match depth with
    | 0 => pure (.stop true)
    | 1 => pure (.stop false)
    | depth + 2 => do
      advance
      pure (.next (depth + 1))
  -- Inside a group, what ends a statement ends one of those that are skipped.
  else if depth = 0 ∧
      (token.kind = .semicolon ∨ next.kind = .rightBrace ∨ next.kind = .eof) then
    pure (.stop false)
  else do
    advance
    pure (.next depth)

/-- Skip the rest of a rejected statement. The answer is `true` if the parser stands on a closing
brace that ends an enclosing block. -/
def synchronize (bound : Nat) : Parse σ Bool :=
  rounds skipRound bound 0

end MonkeySyntax.Parse
