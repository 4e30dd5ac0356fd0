import Scriptlet.Lexer.Scanner
import Scriptlet.Parse.Statement
import Scriptlet.Report.Reporter
import Scriptlet.Run.Machine
import Scriptlet.Text.LineEnd
import Scriptlet.Tree.Dump

/-!
# Scriptlet — sessions

A session runs sources one after the other on one machine and reports to one
reporter. A source about which the reporter complains does not run, nor does any
later one until the reporter is reset.

## Results

* `Session.interpret` — runs statements; a fault is reported and ends them.
* `Session.run`       — runs a source.
* `Session.runFile`   — runs the source in a file.
* `decodeSource?`     — the source that bytes encode.
* `run_of_hadSyntaxError` — a session that was complained about runs nothing.
-/

namespace Scriptlet

open Scriptlet.Text

-- ---------------------------------------------------------------------------
-- Reporting what reading a source found
-- ---------------------------------------------------------------------------

namespace Reporter

/-- Reports the remarks about the characters of a source. -/
def addRemarks (r : Reporter) (remarks : List Remark) : Reporter :=
  remarks.foldl (fun r m => r.complainAtLine m.line m.complaint.message) r

/-- Reports the complaints about the tokens of a source. -/
def addReports (r : Reporter) (reports : List Parse.Report) : Reporter :=
  reports.foldl (fun r m => r.complain m.token m.complaint.message) r

end Reporter

-- ---------------------------------------------------------------------------
-- Files
-- ---------------------------------------------------------------------------

/-- The name that stands for the prompt and therefore for no file. -/
def promptName : String := "<in>"

/-- What a folder holds: the bytes of a file by its path, if it can be read. -/
abbrev Folder := String → Option ByteArray

/--
The source that bytes encode: strict UTF-8, with every line end as a line feed.
A byte-order mark is kept as a character of the source.
-/
def decodeSource? (bytes : ByteArray) : Option String :=
  (String.fromUTF8? bytes).map fun text => String.ofList (normalizeLineEnds text.toList)

/-- Why a path cannot be run, if it cannot, and else its source. -/
def readSource (folder : Folder) (path : String) : Except Escape String :=
  if path = promptName then
    .error (.failure ("'" ++ promptName ++ "' is a reserved filename") false)
  else if path.toList.contains '\x00' then .error (.foreign "ValueError" "embedded null byte")
  else match (folder path).bind decodeSource? with
    | none => .error (.failure ("'" ++ path ++ "' could not be opened") false)
    | some source => .ok source

-- ---------------------------------------------------------------------------
-- Sessions
-- ---------------------------------------------------------------------------

/-- A reporter, a machine, and whether trees are dumped before they run. -/
structure Session where
  reporter : Reporter := {}
  machine : Machine := {}
  debug : Bool := false

/-- A defect of a tree, on its way out of the program. -/
def Escape.ofDefect (d : Defect) : Escape := .foreign "TypeError" d.message

namespace Session

/-- Runs statements in order. A fault ends them and is reported; what else ends them goes on. -/
def interpret (rounds : Nat) (statements : List Stmt) (s : Session) :
    Except Escape Unit × Session :=
  match execAll rounds statements s.machine with
  | .ok () machine => (.ok (), { s with machine })
  | .error (.fault f) machine =>
    (.ok (), { s with machine, reporter := s.reporter.fault f.token f.message })
  | .error (.defect d) machine => (.error (.ofDefect d), { s with machine })
  | .error .unfinished machine => (.error .unfinished, { s with machine })

/-- Prints the dumps of statements, one a line, if the session dumps trees. -/
def dump (statements : List Stmt) (s : Session) : Except Escape Unit × Session :=
  if s.debug then
    match Stmt.dumpAll statements with
    | .error d => (.error (.ofDefect d), s)
    | .ok lines => (.ok (), { s with machine := lines.foldl Machine.print s.machine })
  else (.ok (), s)

/-- Reads a source: its statements, and the session with everything about it reported. -/
def read (source : String) (s : Session) : List Stmt × Session :=
  let (tokens, remarks) := lex source
  let program := Parse.program tokens
  let reporter := (s.reporter.addRemarks remarks).addReports program.reports
  (program.statements, { s with reporter })

/-- Runs a source, unless the reporter has complained. Gives the statements that were read. -/
def run (rounds : Nat) (source : String) (s : Session) :
    Except Escape (List Stmt) × Session :=
  let (statements, s) := s.read source
  if s.reporter.hadSyntaxError then (.ok statements, s)
  else
    match s.dump statements with
    | (.error e, s) => (.error e, s)
    | (.ok (), s) =>
      match s.interpret rounds statements with
      | (.error e, s) => (.error e, s)
      | (.ok (), s) => (.ok statements, s)

/-- Runs the source in a file. -/
def runFile (rounds : Nat) (folder : Folder) (path : String) (s : Session) :
    Except Escape (List Stmt) × Session :=
  match readSource folder path with
  | .error e => (.error e, s)
  | .ok source => s.run rounds source

/-- Forgets the complaints about earlier sources. -/
def reset (s : Session) : Session := { s with reporter := s.reporter.reset }

/-- The session with nothing written and nothing printed yet. -/
def drained (s : Session) : Session :=
  { s with reporter := s.reporter.drained, machine := s.machine.drained }

-- ---------------------------------------------------------------------------
-- Laws
-- ---------------------------------------------------------------------------

/-- A source that leaves a complaint standing runs nothing. -/
theorem run_of_hadSyntaxError {rounds : Nat} {source : String} {s : Session}
    (h : (s.read source).2.reporter.hadSyntaxError = true) :
    s.run rounds source = (.ok (s.read source).1, (s.read source).2) := by
  simp [run, h]

/-- Reading a source leaves the machine alone. -/
theorem machine_read (source : String) (s : Session) : (s.read source).2.machine = s.machine :=
  rfl

/-- A file that cannot be read changes nothing. -/
theorem runFile_of_error {rounds : Nat} {folder : Folder} {path : String} {s : Session}
    {e : Escape} (h : readSource folder path = .error e) :
    s.runFile rounds folder path = (.error e, s) := by
  simp [runFile, h]

end Session

end Scriptlet
