/-!
# Line ends

Files come from systems that end a line in different ways: with a line feed, with a carriage return,
or with the two in that order. `joinLineEnds` turns each of the three into one line feed and keeps
everything else.
-/

namespace MonkeySyntax.Text

/-- Every carriage return, together with a line feed right after it, becomes one line feed. -/
def joinLineEnds : List Char → List Char
  | [] => []
  | '\r' :: '\n' :: rest => '\n' :: joinLineEnds rest
  | '\r' :: rest => '\n' :: joinLineEnds rest
  | c :: rest => c :: joinLineEnds rest

end MonkeySyntax.Text
