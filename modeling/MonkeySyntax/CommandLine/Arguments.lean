import MonkeySyntax.CommandLine.Usage
import MonkeySyntax.Text.DecimalDigit
import MonkeySyntax.Text.Quoted

/-!
# Arguments

The arguments of the command line are flags and at most one *source*. What an argument is, is
decided by its form (`Word.ofArgument`), before anything is done about any of them:

* what does not begin with a dash is a source, and so is a single dash, a negative number that is no
  flag, and anything with a space in it that is no flag;
* a flag is given by its word, by the beginning of its word if no other flag's begins so, or by its
  letter; letters may be joined behind one dash;
* anything else that begins with a dash is unknown.

Everything behind an argument `--` is a source whatever its form. Flags take no argument, so text
attached to one is an error, unless it is made of further letters behind a letter.

Then the arguments are gone through from left to right. Asking for help ends this at once. A second
source, and an unknown argument, is superfluous; superfluous arguments are reported together at the
end.
-/

namespace MonkeySyntax.CommandLine

/-- What the arguments ask for. -/
structure Options where
  source : Option String := none
  string : Bool := false
  tokens : Bool := false
  json : Bool := false
  strict : Bool := false
  repl : Bool := false
  verbose : Bool := false
  deriving DecidableEq, Repr

/-- What is wrong with arguments. -/
inductive ArgumentError where
  /-- The beginning of a word fits several flags. -/
  | ambiguous (argument : String) (flags : List Flag)
  /-- Text is attached to a flag. -/
  | attached (flag : Flag) (text : String)
  /-- Arguments that mean nothing. -/
  | superfluous (arguments : List String)
  deriving DecidableEq, Repr

/-- The message of a fault. -/
def ArgumentError.message : ArgumentError → String
  | ambiguous argument flags =>
    "ambiguous option: " ++ argument ++ " could match " ++ ", ".intercalate (flags.map Flag.word)
  | attached flag text =>
    "argument " ++ flag.title ++ ": ignored explicit argument " ++ Text.quoted text
  | superfluous arguments => "unrecognized arguments: " ++ " ".intercalate arguments

/-- What an argument is by its form. -/
inductive Word where
  | source
  /-- A flag given by its word, with the text behind an equals sign. -/
  | long (flag : Flag) (attached : Option String)
  /-- A flag given by its letter, with what is attached to it. -/
  | short (flag : Flag) (attached : List Char)
  /-- A flag given by its letter, with nothing but an equals sign attached. -/
  | shortEmpty (flag : Flag)
  | unknown
  deriving DecidableEq, Repr

/-! ### The forms of arguments -/

/-- One or more decimal digits. -/
def isDigits (cs : List Char) : Bool :=
  !cs.isEmpty && cs.all fun c => (Text.decimalValue? c).isSome

/-- A negative number: digits behind a dash, or any number of digits, a dot and digits. A line feed
at the very end does not count. -/
def isNegativeNumber (cs : List Char) : Bool :=
  let isNumber (cs : List Char) :=
    let whole := cs.takeWhile fun c => (Text.decimalValue? c).isSome
    isDigits cs ||
      (match cs.drop whole.length with
        | '.' :: fraction => isDigits fraction
        | _ => false)
  match cs with
  | '-' :: rest => isNumber rest || (rest.getLast? == some '\n' && isNumber rest.dropLast)
  | _ => false

/-- An argument that is no flag although it begins with a dash. -/
def Word.ofOther (cs : List Char) : Word :=
  if isNegativeNumber cs || cs.contains ' ' then .source else .unknown

/-- Split at the first equals sign: what stands before it, and what behind if there is one. -/
def splitAtEquals (cs : List Char) : List Char × Option (List Char) :=
  match cs.dropWhile (· ≠ '=') with
  | _ :: rest => (cs.takeWhile (· ≠ '='), some rest)
  | [] => (cs, none)

/-- What an argument is that begins with two dashes. -/
def Word.ofLong (argument : String) : Except ArgumentError Word :=
  let (beginning, attached?) := splitAtEquals argument.toList
  let attached? := attached?.map String.ofList
  match Flag.ofWord? (String.ofList beginning) with
  | some flag => .ok (.long flag attached?)
  | none =>
    -- The beginning of a word will do when only one word begins so.
    match Flag.withWordBeginning (String.ofList beginning) with
    | [] => .ok (Word.ofOther argument.toList)
    | [flag] => .ok (.long flag attached?)
    | flags => .error (.ambiguous argument flags)

/-- What an argument is that begins with a dash and another character. -/
def Word.ofShort (c : Char) (rest : List Char) : Word :=
  match Flag.ofLetter? c, rest with
  | none, rest => Word.ofOther ('-' :: c :: rest)
  | some flag, ['='] => .shortEmpty flag
  | some flag, '=' :: attached => .short flag attached
  | some flag, attached => .short flag attached

/-- What an argument is. -/
def Word.ofArgument (argument : String) : Except ArgumentError Word :=
  match argument.toList with
  | '-' :: '-' :: _ => Word.ofLong argument
  | '-' :: c :: rest => .ok (Word.ofShort c rest)
  | _ => .ok .source

/-! ### Going through the arguments -/

/-- The flags that letters name, behind a flag they are attached to. -/
def joinedFlags (flag : Flag) : List Char → Except ArgumentError (List Flag)
  | [] => .ok [flag]
  | c :: rest =>
    match Flag.ofLetter? c with
    | some next => (joinedFlags next rest).map (flag :: ·)
    | none => .error (.attached flag (String.ofList (c :: rest)))

/-- The flags that an argument gives. -/
def Word.flags : Word → Except ArgumentError (List Flag)
  | source | unknown => .ok []
  | long flag none => .ok [flag]
  | long flag (some text) => .error (.attached flag text)
  | short flag attached => joinedFlags flag attached
  | shortEmpty flag => .error (.attached flag "")

/-- The options with a flag set. -/
def Options.set (o : Options) : Flag → Options
  | .help => o
  | .string => { o with string := true }
  | .tokens => { o with tokens := true }
  | .json => { o with json := true }
  | .strict => { o with strict := true }
  | .repl => { o with repl := true }
  | .verbose => { o with verbose := true }

/-- How reading the arguments ends when it does not end with options. -/
inductive Refusal where
  /-- Help was asked for. -/
  | help
  | error (e : ArgumentError)
  deriving DecidableEq, Repr

/-- How far the arguments have been read. -/
structure Progress where
  options : Options := {}
  /-- The arguments that mean nothing, in order. -/
  superfluous : List String := []
  /-- The argument read last is the source. -/
  onSource : Bool := false

/-- Read an argument that is a source by its form or its place. -/
def Progress.takeSource (p : Progress) (argument : String) : Progress :=
  match p.options.source with
  | none => { p with options := { p.options with source := some argument }, onSource := true }
  | some _ => { p with superfluous := p.superfluous ++ [argument], onSource := false }

/-- Read one argument. -/
def Progress.take (p : Progress) (argument : String) (word : Word) : Except Refusal Progress :=
  match word with
  | .source => .ok (p.takeSource argument)
  | .unknown => .ok { p with superfluous := p.superfluous ++ [argument], onSource := false }
  | word =>
    match word.flags with
    | .error e => .error (.error e)
    | .ok flags =>
      -- Help comes before everything that later arguments could be blamed for.
      if flags.contains .help then .error .help
      else .ok { p with options := flags.foldl Options.set p.options, onSource := false }

/-- Read the arguments behind `--`. The two dashes belong to the source that comes right before or
right behind them; without one they are superfluous themselves. -/
def Progress.takeRest (p : Progress) (arguments : List String) : Progress :=
  match p.options.source with
  | none => arguments.foldl takeSource p
  | some _ =>
    if p.onSource then { p with superfluous := p.superfluous ++ arguments }
    else { p with superfluous := p.superfluous ++ "--" :: arguments }

/-- The options that have been read, unless there are superfluous arguments. -/
def Progress.finish (p : Progress) : Except Refusal Options :=
  if p.superfluous.isEmpty then .ok p.options
  else .error (.error (.superfluous p.superfluous))

/-- Tell what each argument is. -/
def classify : List String → Except ArgumentError (List (String × Word))
  | [] => .ok []
  | argument :: arguments => do
    let word ← Word.ofArgument argument
    let others ← classify arguments
    pure ((argument, word) :: others)

/-- Read arguments of known forms, one after the other. -/
def Progress.takeAll (p : Progress) : List (String × Word) → Except Refusal Progress
  | [] => .ok p
  | (argument, word) :: others => do
    let p ← p.take argument word
    p.takeAll others

/-- The options that the arguments give. -/
def Options.ofArguments (arguments : List String) : Except Refusal Options := do
  let before := arguments.takeWhile (· ≠ "--")
  -- All forms are told first, so an ambiguous argument is a fault even behind a request for help.
  let words ← (classify before).mapError Refusal.error
  let p ← Progress.takeAll {} words
  match arguments.dropWhile (· ≠ "--") with
  | [] => p.finish
  | _ :: behind => (p.takeRest behind).finish

end MonkeySyntax.CommandLine
