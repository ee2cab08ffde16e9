import MonkeySyntax.Listing
import MonkeySyntax.Parser.Program
import MonkeySyntax.SourceFile
import MonkeySyntax.Tree.Outline
import MonkeySyntax.Tree.Rendering

/-!
# Running the front end

The front end takes a program text, or the name of a file that holds one, and prints what it makes
of it: on demand the listing of tokens, then the program, as canonical text or as JSON, and then the
listing of diagnostics if there are any. Its status is zero when there are none and one otherwise.

A strict run prints no program that has diagnostics. It stops behind the tokens and leaves the
messages to whoever started it.
-/

namespace MonkeySyntax

/-- How the front end is to be run. -/
structure RunOptions where
  /-- The source is a program text and not the name of a file. -/
  inline : Bool := false
  /-- List the tokens first. -/
  tokens : Bool := false
  /-- Print the program as JSON. -/
  json : Bool := false
  /-- Refuse a program with diagnostics. -/
  strict : Bool := false
  deriving DecidableEq, Repr

/-- How a run ends. -/
inductive RunEnding where
  /-- Everything has been printed. -/
  | finished (status : Nat)
  /-- A strict run has met diagnostics. -/
  | refused (messages : List String)
  /-- There is no text to work on. -/
  | unreadable (error : ReadError)
  deriving DecidableEq, Repr

/-- A run: what it has printed, and how it ended. -/
structure Run where
  printed : String
  ending : RunEnding
  deriving DecidableEq, Repr

namespace FrontEnd

/-- The program as it is printed. -/
def programText (json : Bool) (program : Program) : String :=
  if json then program.toJson.text else program.render

/-- The listing of tokens, if it is wanted. -/
def tokenPart (tokens : Bool) (source : String) : String :=
  if tokens then Listing.ofSource source else ""

/-- Run on a program text. -/
def runText (options : RunOptions) (source : String) : Run :=
  let reading := parse source
  let before := tokenPart options.tokens source
  let program := programText options.json reading.program ++ "\n"
  if reading.diagnostics.isEmpty then
    ⟨before ++ program, .finished 0⟩
  else if options.strict then
    -- The listing of tokens is out by now; the program is not printed.
    ⟨before, .refused reading.messages⟩
  else
    ⟨before ++ program ++ Listing.ofMessages reading.messages, .finished 1⟩

/-- The program text that a source stands for. -/
def readSource (files : FileView) (inline : Bool) (source : String) : Except ReadError String :=
  if inline then .ok source else SourceFile.read files source

/-- Run on a source: a program text, or the name of a file that holds one. -/
def run (files : FileView) (options : RunOptions) (source : String) : Run :=
  match readSource files options.inline source with
  | .ok text => runText options text
  | .error e => ⟨"", .unreadable e⟩

end FrontEnd

end MonkeySyntax
