import MonkeySyntax.Scanner.Scan
import MonkeySyntax.Text.Quoted

/-!
# Listings

How tokens and diagnostics are shown. A listing of tokens has one line for each token before the end
of the text: the name of its kind, filled up to twelve characters, and its literal as a quoted text,
which keeps it on that line whatever it holds. A listing of diagnostics has a heading and one
indented line for each message.
-/

namespace MonkeySyntax

/-- The debugging text of a token. Its place is left out. -/
def Token.debugText (t : Token) : String :=
  "Token(" ++ t.kind.name ++ ", " ++ Text.quoted t.literal ++ ")"

namespace Listing

/-- The text, filled up with spaces on the right. -/
def fill (width : Nat) (s : String) : String :=
  s ++ String.ofList (List.replicate (width - s.length) ' ')

/-- The line for one token. -/
def tokenLine (t : Token) : String :=
  "[token] >>> " ++ fill 12 t.kind.name ++ " " ++ Text.quoted t.literal ++ "\n"

/-- The listing of tokens. -/
def ofTokens (ts : List Token) : String :=
  String.join (ts.map tokenLine)

/-- The listing of the tokens of a text, without the end token. -/
def ofSource (source : String) : String :=
  ofTokens ((tokenize source).filter (·.kind ≠ .eof))

/-- The listing of messages. -/
def ofMessages (messages : List String) : String :=
  "[error] >>> parser errors:\n" ++ String.join (messages.map fun m => "\t" ++ m ++ "\n")

end Listing

end MonkeySyntax
