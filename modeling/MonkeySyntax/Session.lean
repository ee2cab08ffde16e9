import MonkeySyntax.FrontEnd
import MonkeySyntax.Text.Blank

/-!
# Interactive sessions

A session reads one line after another and answers each before it reads the next. A line is trimmed
of blanks first. An empty one is passed over; `exit` and `quit` end the session; `verbose-mode`, in
capitals or not, turns the listing of tokens on or off; and every other line is a program by itself,
answered with its canonical text or with its diagnostics. An interrupt ends the session, and so does
the end of the input.

So the only thing that one line leaves behind for the next is whether tokens are listed.
-/

namespace MonkeySyntax.Session

/-- What reading a line can give; the end of the input is the end of the list of these. -/
inductive Input where
  | line (text : String)
  | interrupt
  deriving DecidableEq, Repr

/-- What a line asks for. -/
inductive Command where
  | nothing
  | leave
  /-- Turn the listing of tokens on or off. -/
  | toggle
  /-- Read a program. -/
  | program (source : String)
  deriving DecidableEq, Repr

/-- The command on a line. -/
def Command.ofLine (line : String) : Command :=
  let source := Text.trim line
  if source = "" then .nothing
  else if source = "exit" ∨ source = "quit" then .leave
  else if source.toList.map Char.toLower = "verbose-mode".toList then .toggle
  else .program source

/-- What is printed before the first line is read. -/
def greeting : String :=
  "Monkey REPL. Type 'exit' or 'quit' to leave.\n"

/-- What is printed when a line is about to be read. -/
def prompt : String :=
  ">> "

def farewell : String :=
  "Exiting Monkey REPL.\n"

/-- The answer to a change of mode; `verbose` is the new mode. -/
def modeLine (verbose : Bool) : String :=
  "[mode] >>> Verbose mode " ++ (if verbose then "ON" else "OFF") ++ "\n"

/-- The answer to a program. -/
def reply (verbose : Bool) (source : String) : String :=
  let reading := parse source
  (if verbose then Listing.ofSource source else "") ++
    if reading.diagnostics.isEmpty then reading.program.render ++ "\n"
    else Listing.ofMessages reading.messages

/-- A finished session: the answers, one for each prompt, and the number of lines left unread. -/
structure Transcript where
  answers : List String
  unread : Nat
  deriving DecidableEq, Repr

/-- The transcript with one more answer in front. -/
def Transcript.cons (answer : String) (t : Transcript) : Transcript :=
  ⟨answer :: t.answers, t.unread⟩

/-- Hold a session on the given input. -/
def run : (verbose : Bool) → List Input → Transcript
  | _, [] => ⟨["\n" ++ farewell], 0⟩
  | _, .interrupt :: rest => ⟨["\n" ++ farewell], rest.length⟩
  | verbose, .line text :: rest =>
    match Command.ofLine text with
    | .nothing => (run verbose rest).cons ""
    -- Whatever comes behind a word of leave-taking is not read.
    | .leave => ⟨[farewell], rest.length⟩
    | .toggle => (run (!verbose) rest).cons (modeLine !verbose)
    | .program source => (run verbose rest).cons (reply verbose source)

namespace Transcript

/-- Everything printed, cut behind every prompt. -/
def segments (t : Transcript) : List String :=
  (greeting ++ prompt) :: ((t.answers.dropLast.map (· ++ prompt)) ++ t.answers.getLast?.toList)

/-- Everything printed. -/
def printed (t : Transcript) : String :=
  String.join t.segments

end Transcript

end MonkeySyntax.Session
