import MonkeySyntax.Scanner.Scan

/-!
# Requests to a cursor

Everything a cursor can be asked, as data: so that a statement can speak of any requests in any
order. A request is answered and leaves the cursor where it is or further on.
-/

namespace MonkeySyntax.Scanner

/-- What a cursor can be asked. -/
inductive Request where
  /-- Pass one character. -/
  | advance
  /-- Show the character after the one ahead. -/
  | lookahead
  /-- Tell whether the text ends here. -/
  | atEnd
  | skipSpaces
  | readWord
  | readNumber
  | readString
  /-- The next token. -/
  | nextToken
  /-- All tokens up to and including the end token. -/
  | tokens
  deriving DecidableEq, Repr

/-- What a cursor answers. -/
inductive Answer where
  /-- Nothing: the cursor has only moved. -/
  | done
  | character (c : Option Char)
  | truth (b : Bool)
  | text (s : String)
  | token (t : Token)
  | tokens (ts : List Token)
  deriving DecidableEq, Repr

namespace Cursor

/-- Answer one request. -/
def perform (request : Request) (c : Cursor) : Answer × Cursor :=
  match request with
  | .advance => (.done, c.advance)
  | .lookahead => (.character c.lookahead?, c)
  | .atEnd => (.truth c.atEnd, c)
  | .skipSpaces => (.done, c.skipSpaces)
  | .readWord => (.text c.readWord.1, c.readWord.2)
  | .readNumber => (.text c.readNumber.1, c.readNumber.2)
  | .readString => (.text c.readString.1, c.readString.2)
  | .nextToken => (.token c.nextToken.1, c.nextToken.2)
  | .tokens => (.tokens (TokenStream.drain c).1, (TokenStream.drain c).2)

/-- The cursor after requests that are answered one after the other. -/
def performAll (requests : List Request) (c : Cursor) : Cursor :=
  requests.foldl (fun c request => (c.perform request).2) c

@[simp] theorem performAll_nil (c : Cursor) : c.performAll [] = c := rfl

@[simp] theorem performAll_cons (request : Request) (requests : List Request) (c : Cursor) :
    c.performAll (request :: requests) = (c.perform request).2.performAll requests := rfl

end Cursor

end MonkeySyntax.Scanner
