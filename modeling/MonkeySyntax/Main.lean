import MonkeySyntax.CommandLine.Invocation

/-!
# The program

The command line as it is run: this module reads lines and files and writes what the library
answers.
-/

namespace MonkeySyntax

/-- Hold a session with whoever is at the terminal. -/
partial def converse (verbose : Bool) : IO Unit := do
  IO.print Session.prompt
  (← IO.getStdout).flush
  let line ← (← IO.getStdin).getLine
  if line.isEmpty then
    IO.print ("\n" ++ Session.farewell)
  else
    match Session.Command.ofLine line with
    | .nothing => converse verbose
    | .leave => IO.print Session.farewell
    | .toggle =>
      IO.print (Session.modeLine !verbose)
      converse !verbose
    | .program source =>
      IO.print (Session.reply verbose source)
      converse verbose

/-- Why the system has not opened a file, by the number that it gives, which may be negated. -/
def openFault (code : UInt32) : OpenFault :=
  let faults : List OpenFault := [.notDirectory, .isDirectory, .nameTooLong]
  (faults.find? fun f => f.code = code.toNat || f.code = (-code).toNat).getD .missing

/-- What the system answers when a file is to be read. -/
def lookUp (name : String) : IO (Except OpenFault (List UInt8)) := do
  try
    let bytes ← IO.FS.readBinFile name
    return .ok bytes.toList
  catch
    | .inappropriateType _ code _ | .invalidArgument _ code _ => return .error (openFault code)
    | _ => return .error .missing

/-- The file system as far as an action needs it. -/
def viewFor : CommandLine.Action → IO FileView
  | .run options source => do
    if !options.inline && SourceFile.isSupported source && !source.toList.contains '\x00' then
      let entry ← lookUp source
      return fun name => if name = source then entry else .error .missing
    else
      return fun _ => .error .missing
  | _ => return fun _ => .error .missing

end MonkeySyntax

open MonkeySyntax in
/-- Carry out what the arguments ask for. -/
def main (arguments : List String) : IO UInt32 := do
  match CommandLine.Action.ofArguments arguments with
  | .session verbose =>
    IO.print Session.greeting
    converse verbose
    return 0
  | action =>
    let report := action.perform (← viewFor action) []
    IO.print report.output
    IO.eprint report.errors
    return UInt32.ofNat (report.status.getD 0)
