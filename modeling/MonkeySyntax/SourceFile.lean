import MonkeySyntax.FileTree
import MonkeySyntax.Text.Newline
import MonkeySyntax.Text.Quoted
import MonkeySyntax.Text.Utf8

/-!
# Source files

Where a program text comes from when it is not given directly. A file with a program has a name that
ends in `.monkey`; it holds the text in UTF-8, and its line ends are made uniform when it is read.
What can go wrong is a `ReadError`, and of several faults the one listed first counts.
-/

namespace MonkeySyntax

/-- Why a program text cannot be read. -/
inductive ReadError where
  /-- The name does not end in `.monkey`. -/
  | unsupportedName
  /-- The name contains the character U+0000. -/
  | nulInName
  /-- There is no file of this name. -/
  | unopened (fault : OpenFault) (name : String)
  /-- The file does not hold text. -/
  | undecodable (error : Text.Utf8.DecodeError)
  deriving DecidableEq, Repr

/-- The message of a fault. -/
def ReadError.message : ReadError → String
  | unsupportedName => "Only .monkey files are supported."
  | nulInName => "embedded null byte"
  | unopened fault name =>
    "[Errno " ++ toString fault.code ++ "] " ++ fault.reason ++ ": " ++ Text.quoted name
  | undecodable error => error.message

namespace SourceFile

/-- The ending of the names of program files. -/
def extension : List Char :=
  ".monkey".toList

/-- The name is that of a program file. -/
def isSupported (name : String) : Bool :=
  extension.isSuffixOf name.toList

/-- The text that bytes in a file stand for. -/
def ofBytes (bytes : List UInt8) : Except ReadError String :=
  match Text.Utf8.decode bytes with
  | .ok cs => .ok (String.ofList (Text.joinLineEnds cs))
  | .error e => .error (.undecodable e)

/-- The program text in the file of the given name. -/
def read (files : FileView) (name : String) : Except ReadError String :=
  -- The name is judged before the file system is asked.
  if !isSupported name then .error .unsupportedName
  else if '\x00' ∈ name.toList then .error .nulInName
  else match files name with
    | .error fault => .error (.unopened fault name)
    | .ok bytes => ofBytes bytes

end SourceFile

end MonkeySyntax
