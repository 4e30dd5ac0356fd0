import Scriptlet.Command.Options
import Scriptlet.Session.Prompt

/-!
# Scriptlet — the program

What the program writes and how it ends, as a function of its arguments, of the
files it can read and of its input. With a file it runs that file; without one
it holds a conversation at the prompt.

## Results

* `Program.run`        — the whole program.
* `Program.runFile`    — with a file; the exit code tells what went wrong.
* `Program.runPrompt`  — without one.
-/

namespace Scriptlet

open Scriptlet.Text

/-- What the program wrote, and its exit code. -/
structure Outcome where
  exit : Int
  out : String := ""
  err : String := ""
  deriving DecidableEq, Repr

/-- The first line of the help and of complaints about arguments. -/
def usageLine : String := "usage: jox [-h] [--debug] [--no-color] [file]\n"

/-- What the help option shows. -/
def helpText : String :=
  usageLine
    ++ "\npositional arguments:\n"
    ++ "  file        file to interpret and run (if empty, goes to interactive mode)\n"
    ++ "\noptions:\n"
    ++ "  -h, --help  show this help message and exit\n"
    ++ "  --debug     print the syntax tree of each statement before running it\n"
    ++ "  --no-color  don't color diagnostics\n"

namespace Program

/-- The exit code of a program that no escape ended. -/
def exitCode (r : Reporter) : Int :=
  if r.hadSyntaxError then exitSyntax
  else if r.hadRuntimeError then exitRuntime
  else 0

/-- The session of a file, where every failure is fatal. -/
def fileSession (options : Options) : Session where
  reporter := { color := !options.noColor }
  debug := options.debug

/-- Runs a file. -/
def runFile (rounds : Nat) (folder : Folder) (options : Options) (path : String) : Outcome :=
  let (outcome, s) := (fileSession options).runFile rounds folder path
  let escape? := match outcome with
    | .ok _ => none
    | .error e => some e
  let (guarded, reporter) := s.reporter.guard escape?
  let exit := match guarded with
    | .escaped (.exit code) => code
    | .escaped _ => exitFailure
    | .finished | .suppressed => exitCode reporter
  { exit, out := s.machine.text, err := reporter.text }

/-- The session of the prompt, where no failure is fatal. -/
def promptSession (options : Options) : Session where
  reporter := { color := !options.noColor, fatal := false }
  debug := options.debug

/-- Holds a conversation at the prompt. -/
def runPrompt (rounds : Nat) (options : Options) (input : String) : Outcome :=
  let lines := (splitLines input.toList).map String.ofList ++ [endOfInput]
  let (transcript, s) := Prompt.converse rounds lines (promptSession options)
  { exit := 0, out := greeting ++ "\n" ++ transcript, err := s.reporter.text }

/-- Runs the program. -/
def run (rounds : Nat) (folder : Folder) (input : String) (arguments : List String) : Outcome :=
  match Usage.ofArguments arguments with
  | .help => { exit := 0, out := helpText }
  | .error e =>
    { exit := exitUsage, err := usageLine ++ "jox: error: " ++ e.message ++ "\n" }
  | .run options =>
    match options.file with
    | some path => runFile rounds folder options path
    | none => runPrompt rounds options input

end Program

end Scriptlet
