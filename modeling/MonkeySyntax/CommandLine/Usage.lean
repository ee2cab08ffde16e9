/-!
# Flags and usage

The flags of the command line, their spellings, and the texts that explain them.
-/

namespace MonkeySyntax.CommandLine

/-- The flags. None of them takes an argument. -/
inductive Flag where
  | help
  | string
  | tokens
  | json
  | strict
  | repl
  | verbose
  deriving DecidableEq, Repr

namespace Flag

/-- Every flag, in the order in which the help lists them. -/
def all : List Flag :=
  [help, string, tokens, json, strict, repl, verbose]

/-- The letter of a flag that has one. -/
def letter? : Flag → Option Char
  | help => some 'h'
  | string => some 's'
  | tokens => some 't'
  | json => some 'j'
  | strict | repl | verbose => none

/-- The word of a flag, with its dashes. -/
def word : Flag → String
  | help => "--help"
  | string => "--string"
  | tokens => "--tokens"
  | json => "--json"
  | strict => "--strict"
  | repl => "--repl"
  | verbose => "--verbose"

/-- All spellings of a flag, as messages name it. -/
def title (f : Flag) : String :=
  match f.letter? with
  | some c => "-" ++ String.singleton c ++ "/" ++ f.word
  | none => f.word

/-- The flag with the given letter. -/
def ofLetter? (c : Char) : Option Flag :=
  all.find? (·.letter? == some c)

/-- The flag with the given word. -/
def ofWord? (w : String) : Option Flag :=
  all.find? (·.word == w)

/-- The flags whose words begin as given. -/
def withWordBeginning (start : String) : List Flag :=
  all.filter fun f => start.toList.isPrefixOf f.word.toList

end Flag

/-- The line that shows how the program is called. -/
def usage : String :=
  "usage: monkey [-h] [-s] [-t] [-j] [--strict] [--repl] [--verbose] [source]\n"

/-- The help. -/
def help : String :=
  usage ++ "\n" ++
  "positional arguments:\n" ++
  "  source        Filename or raw source (with -s)\n" ++
  "\n" ++
  "options:\n" ++
  "  -h, --help    show this help message and exit\n" ++
  "  -s, --string  Interpret source as literal string\n" ++
  "  -t, --tokens  Print the token stream\n" ++
  "  -j, --json    Print AST as JSON\n" ++
  "  --strict      Raise on parser diagnostics instead of listing them\n" ++
  "  --repl        Launch interactive REPL instead of parsing\n" ++
  "  --verbose     Verbose REPL mode (if --repl)\n"

end MonkeySyntax.CommandLine
