import Scriptlet.Text.Digit
import Scriptlet.Text.Quoted

/-!
# Scriptlet — command line options

The arguments of the program: at most one file and three options, none of which
takes a value. A long option may be cut short as long as one option alone starts
that way. Behind `--` every argument stands for itself.

What an argument is depends on its own text only, so the arguments are told
apart first and used afterwards, from left to right. The first use of help ends
the program; arguments without a use are complained about at the very end.

## Results

* `Argument.ofText`      — what an argument is.
* `Usage.ofArguments`    — what the arguments ask for.
* `UsageError.message`   — the wording of a complaint about arguments.
-/

namespace Scriptlet

open Scriptlet.Text

/-- The options. -/
inductive Switch where
  | help | debug | noColor
  deriving DecidableEq, Repr

namespace Switch

/-- The long spelling of an option. -/
def long : Switch → String
  | help => "--help"
  | debug => "--debug"
  | noColor => "--no-color"

/-- All spellings of an option, as complaints name it. -/
def name : Switch → String
  | help => "-h/--help"
  | s => s.long

/-- The options in the order in which complaints list them. -/
def all : List Switch := [help, debug, noColor]

end Switch

/-- What is wrong with the arguments. -/
inductive UsageError where
  /-- Arguments that nothing uses. -/
  | unrecognized (arguments : List String)
  /-- A long option cut so short that several start that way. -/
  | ambiguous (argument : String) (candidates : List Switch)
  /-- A value given to an option that takes none. -/
  | ignoredValue (switch : Switch) (value : String)
  deriving DecidableEq, Repr

/-- The wording of a complaint about arguments. -/
def UsageError.message : UsageError → String
  | unrecognized arguments => "unrecognized arguments: " ++ " ".intercalate arguments
  | ambiguous argument candidates =>
    "ambiguous option: " ++ argument ++ " could match "
      ++ ", ".intercalate (candidates.map Switch.long)
  | ignoredValue switch value =>
    "argument " ++ switch.name ++ ": ignored explicit argument " ++ quoted value

-- ---------------------------------------------------------------------------
-- What an argument is
-- ---------------------------------------------------------------------------

/-- What an argument before `--` is. -/
inductive Argument where
  /-- A file name. -/
  | plain
  | option (s : Switch)
  /-- An option of no known name. -/
  | unknown
  | wrong (e : UsageError)
  deriving DecidableEq, Repr

/-- Skips the digits of any script. -/
def dropDigits (cs : List Char) : List Char := cs.dropWhile fun c => (digitValue? c).isSome

/-- Whether nothing is left of a text but the line feed that may end it. -/
def isSpent (cs : List Char) : Bool := cs.isEmpty || cs == ['\n']

/-- Whether a text behind its minus sign is a number: digits, or a point with digits behind it. -/
def isNegativeNumber (cs : List Char) : Bool :=
  let rest := dropDigits cs
  (rest.length < cs.length && isSpent rest)
    || match rest with
      | '.' :: fraction =>
        let spent := dropDigits fraction
        spent.length < fraction.length && isSpent spent
      | _ => false

/--
Letters behind `-h`: each further `h` is help again, and from the first other
letter on they are a value, which help does not take.
-/
def furtherHelp : List Char → Argument
  | [] => .option .help
  | 'h' :: rest => furtherHelp rest
  | value => .wrong (.ignoredValue .help (String.ofList value))

/--
What stands behind `-h`. An equals sign directly behind it sets a value off; the
value is read like letters without it, but an empty one is a value too.
-/
def afterShortHelp : List Char → Argument
  | ['='] => .wrong (.ignoredValue .help "")
  | '=' :: value => furtherHelp value
  | letters => furtherHelp letters

/-- A text that starts with a minus sign and names no option. -/
def Argument.ofOther (cs : List Char) : Argument :=
  if isNegativeNumber (cs.drop 1) || cs.contains ' ' then .plain else .unknown

/-- A text that starts with two minus signs. -/
def Argument.ofLong (cs : List Char) : Argument :=
  let start := String.ofList (cs.takeWhile (· != '='))
  let value := (cs.dropWhile (· != '=')).drop 1
  match Switch.all.filter (·.long.startsWith start) with
  | [] => .ofOther cs
  | [s] =>
    if cs.contains '=' then .wrong (.ignoredValue s (String.ofList value)) else .option s
  | candidates => .wrong (.ambiguous (String.ofList cs) candidates)

/-- What an argument before `--` is. -/
def Argument.ofText (text : String) : Argument :=
  match text.toList with
  | '-' :: '-' :: rest => .ofLong ('-' :: '-' :: rest)
  | '-' :: 'h' :: rest => afterShortHelp rest
  | '-' :: c :: rest => .ofOther ('-' :: c :: rest)
  | _ => .plain

-- ---------------------------------------------------------------------------
-- What the arguments ask for
-- ---------------------------------------------------------------------------

/-- How the program is to run. -/
structure Options where
  file : Option String := none
  debug : Bool := false
  noColor : Bool := false
  deriving DecidableEq, Repr

/-- What the arguments ask for. -/
inductive Usage where
  | run (options : Options)
  | help
  | error (e : UsageError)
  deriving DecidableEq, Repr

/-- The arguments before `--`, and those from it on. -/
def splitAtMark (arguments : List String) : List String × List String :=
  (arguments.takeWhile (· != "--"), arguments.dropWhile (· != "--"))

/-- Runs the program, unless there are arguments without a use. -/
def Usage.unless (unused : List String) (options : Options) : Usage :=
  if unused.isEmpty then .run options else .error (.unrecognized unused)

/--
Uses the arguments before `--` from left to right, and then those from it on. The
first argument that is no option is the file. The `--` itself is used up if it
stands directly behind the file or if the file stands behind it.
-/
def useArguments (options : Options) (unused : List String) :
    (before rest : List String) → Usage
  | [], rest =>
    if options.file.isSome then .unless (unused ++ rest) options
    else .unless (unused ++ rest.drop 2) { options with file := (rest.drop 1).head? }
  | text :: others, rest =>
    match Argument.ofText text with
    | .plain =>
      if options.file.isSome then useArguments options (unused ++ [text]) others rest
      else
        let rest := if others.isEmpty then rest.drop 1 else rest
        useArguments { options with file := some text } unused others rest
    | .unknown => useArguments options (unused ++ [text]) others rest
    | .option .help => .help
    | .option .debug => useArguments { options with debug := true } unused others rest
    | .option .noColor => useArguments { options with noColor := true } unused others rest
    | .wrong e => .error e

/-- What the arguments ask for. An option cut too short is found out before any is used. -/
def Usage.ofArguments (arguments : List String) : Usage :=
  let (before, rest) := splitAtMark arguments
  let ambiguity? := before.findSome? fun text =>
    match Argument.ofText text with
    | .wrong (.ambiguous text candidates) => some (UsageError.ambiguous text candidates)
    | _ => none
  match ambiguity? with
  | some e => .error e
  | none => useArguments {} [] before rest

end Scriptlet
