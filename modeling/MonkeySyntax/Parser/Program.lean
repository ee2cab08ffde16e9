import MonkeySyntax.Parser.Grammar
import MonkeySyntax.Scanner.Scan

/-!
# Reading programs

A whole program is read from a stream of tokens or from a text. Reading always yields a program: the
statements that could be read, together with one diagnostic for each that could not. Strict reading
makes no difference to how a text is read; it only refuses a program that has diagnostics, and hands
these out instead.
-/

namespace MonkeySyntax

/-- What reading a program yields: the program, and what was wrong with the text. -/
structure Reading where
  program : Program
  diagnostics : List Diagnostic

namespace Reading

/-- Read the program from where a parser stands to the end of the input. -/
def ofParser {σ : Type} [TokenStream σ] (p : Parser σ) : Reading :=
  let (program?, after) := ((Parse.program (Parse.expression p.fuel) p.fuel).run p).result p
  ⟨program?.getD {}, after.diagnostics⟩

/-- Read the program that a stream holds. -/
def ofStream {σ : Type} [TokenStream σ] (s : σ) : Reading :=
  ofParser (Parser.ofStream s)

/-- Read a program text. -/
def ofString (source : String) : Reading :=
  ofStream (Scanner.Cursor.ofString source)

/-- The messages of the diagnostics. -/
def messages (r : Reading) : List String :=
  r.diagnostics.map Diagnostic.message

/-- The program, unless there are diagnostics. -/
def strict (r : Reading) : Except (List Diagnostic) Program :=
  if r.diagnostics.isEmpty then .ok r.program else .error r.diagnostics

end Reading

/-- Read a program text, going on behind whatever is wrong with it. -/
def parse (source : String) : Reading :=
  Reading.ofString source

/-- Read a program text and refuse it if anything is wrong with it. -/
def parseStrict (source : String) : Except (List Diagnostic) Program :=
  (parse source).strict

/-- The text of several messages, a line for each. -/
def joinMessages (messages : List String) : String :=
  "\n".intercalate messages

end MonkeySyntax
