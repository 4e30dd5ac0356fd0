import Scriptlet.Command.Program

/-!
# Scriptlet — the command line

Reads what the program needs, runs it and writes what it wrote. At the prompt
every line is answered before the next one is read. All decisions are made in
`Scriptlet.Program` and `Scriptlet.Prompt`.
-/

namespace Scriptlet

/-- More rounds than any loop takes. -/
def manyRounds : Nat := Nat.pow 2 62

/-- The bytes of a file, if it can be read. -/
def readBytes? (path : String) : IO (Option ByteArray) := do
  try
    return some (← IO.FS.readBinFile path)
  catch _ =>
    return none

/-- Writes what the program wrote. -/
def write (outcome : Outcome) : IO UInt32 := do
  IO.print outcome.out
  IO.eprint outcome.err
  return UInt32.ofNat outcome.exit.toNat

/-- Reads a line without the line feed behind it; the end of the input is a line of its own. -/
def readLine (stream : IO.FS.Stream) : IO String := do
  let line ← stream.getLine
  return if line.isEmpty then endOfInput else String.ofList ((Text.splitLines line.toList).headD [])

/-- Answers lines until one ends the conversation. -/
partial def converse (stream : IO.FS.Stream) (s : Session) : IO Unit := do
  IO.print promptMark
  (← IO.getStdout).flush
  let (shown, stop, s) := Prompt.turn manyRounds (← readLine stream) s
  IO.print shown
  IO.eprint s.reporter.text
  unless stop do converse stream { s with reporter := s.reporter.drained }

end Scriptlet

open Scriptlet in
/-- The program. -/
def main (arguments : List String) : IO UInt32 := do
  match Usage.ofArguments arguments with
  | .run { file := none, debug, noColor } =>
    IO.println greeting
    converse (← IO.getStdin) (Program.promptSession { debug, noColor })
    return 0
  | .run { file := some path, .. } =>
    let bytes ← readBytes? path
    write (Program.run manyRounds (fun _ => bytes) "" arguments)
  | _ => write (Program.run manyRounds (fun _ => none) "" arguments)
