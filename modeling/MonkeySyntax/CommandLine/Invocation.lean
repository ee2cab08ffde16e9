import MonkeySyntax.CommandLine.Arguments
import MonkeySyntax.FrontEnd
import MonkeySyntax.Session

/-!
# Invocations

What the program does when it is started, as a function of its arguments, the files, and the lines
it can read. Without a source, or when asked to, it holds an interactive session; otherwise it runs
the front end once. The exit status is two when it cannot do what it was asked to do (bad arguments,
no readable source), one when the program text has diagnostics, and zero otherwise.
-/

namespace MonkeySyntax.CommandLine

/-- What the arguments make the program do. -/
inductive Action where
  | showHelp
  | rejectArguments (error : ArgumentError)
  | session (verbose : Bool)
  | run (options : RunOptions) (source : String)
  deriving DecidableEq, Repr

/-- The action that options lead to. -/
def Options.action (o : Options) : Action :=
  match o.source with
  | none => .session o.verbose
  | some source =>
    if o.repl then .session o.verbose
    else .run ⟨o.string, o.tokens, o.json, o.strict⟩ source

/-- The action that arguments lead to; without any, it is a session. -/
def Action.ofArguments (arguments : List String) : Action :=
  if arguments.isEmpty then .session false
  else match Options.ofArguments arguments with
    | .ok options => options.action
    | .error .help => .showHelp
    | .error (.error e) => .rejectArguments e

/-- What an invocation leaves behind: what it has written to standard output and to standard error,
and its exit status; a session just ends. -/
structure Report where
  output : String := ""
  errors : String := ""
  status : Option Nat := none
  deriving DecidableEq, Repr

/-- The report on a run of the front end. -/
def Report.ofRun (r : Run) : Report :=
  match r.ending with
  | .finished status => ⟨r.printed, "", some status⟩
  | .refused messages => ⟨r.printed ++ Listing.ofMessages messages, "", some 1⟩
  | .unreadable e => ⟨r.printed, "[error] >>> " ++ e.message ++ "\n", some 2⟩

/-- Carry out an action. -/
def Action.perform (files : FileView) (input : List Session.Input) : Action → Report
  | .showHelp => ⟨help, "", some 0⟩
  | .rejectArguments e => ⟨"", usage ++ "monkey: error: " ++ e.message ++ "\n", some 2⟩
  | .session verbose => { output := (Session.run verbose input).printed }
  | .run options source => Report.ofRun (FrontEnd.run files options source)

/-- Start the program. -/
def invoke (arguments : List String) (files : FileView) (input : List Session.Input) : Report :=
  (Action.ofArguments arguments).perform files input

end MonkeySyntax.CommandLine
