import Scriptlet.Report.Notice
import Scriptlet.Token

/-!
# Scriptlet — reporting

A reporter collects notices and keeps two flags: whether source text was
complained about, and whether a run broke off. It also decides what becomes of
an escape, an error that no part of the program handles: most are reported and
end there, errors of a foreign kind are reported and go on, and a fatal reporter
ends the process after every report.

## Results

* `Reporter.complain`  — a complaint about source text; sets the syntax flag.
* `Reporter.fault`     — a fault of a run; sets the runtime flag.
* `Reporter.throw`     — a failure; a fatal reporter ends the process with it.
* `Reporter.guard`     — what becomes of an escape.
* `complain_hadRuntimeError`, `fault_hadSyntaxError` — each sets its own flag only.
-/

namespace Scriptlet

/-- Exit codes of the process. -/
def exitUsage : Int := 1
def exitFailure : Int := 2
def exitSyntax : Int := 3
def exitRuntime : Int := 4

/-- An error on its way out of the program. -/
inductive Escape where
  /-- The user interrupted the program. -/
  | interrupted
  /-- The program nests too deeply. -/
  | tooDeep
  /-- A failure that the program raises on purpose; an internal one is its own fault. -/
  | failure (message : String) (internal : Bool)
  /-- An error of any other kind, by the name of its kind. -/
  | foreign (kind message : String)
  /-- The process ends. -/
  | exit (code : Int)
  /-- A loop took more rounds than it was allowed. -/
  | unfinished
  deriving DecidableEq, Repr

/-- What became of an escape. -/
inductive Guarded where
  | finished
  | suppressed
  | escaped (escape : Escape)
  deriving DecidableEq, Repr

/-- The notices so far and the two flags. -/
structure Reporter where
  /-- Whether notices are colored. -/
  color : Bool := true
  /-- Whether a failure ends the process. -/
  fatal : Bool := true
  hadSyntaxError : Bool := false
  hadRuntimeError : Bool := false
  notices : Array Notice := #[]

namespace Reporter

/-- The reporter's paint. -/
def paint (r : Reporter) : Paint := .ofColor r.color

/-- Everything written so far, one notice a line. -/
def text (r : Reporter) : String :=
  r.notices.foldl (fun written n => written ++ n.text r.paint ++ "\n") ""

/-- The reporter with nothing written yet. -/
def drained (r : Reporter) : Reporter := { r with notices := #[] }

/-- Writes a notice. -/
def note (r : Reporter) (n : Notice) : Reporter := { r with notices := r.notices.push n }

/-- Writes a diagnostic. -/
def report (r : Reporter) (d : Diagnostic) : Reporter := r.note (.diagnostic d)

/-- Complains about a line of source text. -/
def complainAtLine (r : Reporter) (line : Int) (message : String) : Reporter :=
  { r.report { line, category := "Parse", place := "", message } with hadSyntaxError := true }

/-- A token as the place of a diagnostic. -/
def placeOf (t : Token) : String := "at '" ++ t.lexeme ++ "'"

/-- Complains about a token of source text. -/
def complain (r : Reporter) (t : Token) (message : String) : Reporter :=
  let place := if t.isEof then "at end of file" else placeOf t
  { r.report { line := t.line, category := "Parse", place, message } with hadSyntaxError := true }

/-- Reports that a run broke off at a token. -/
def fault (r : Reporter) (t : Token) (message : String) : Reporter :=
  { r.report { line := t.line, category := "Runtime", place := placeOf t, message } with
    hadRuntimeError := true }

/-- Forgets complaints about source text. -/
def reset (r : Reporter) : Reporter := { r with hadSyntaxError := false }

/-- Reports a failure, and ends the process if the reporter is fatal. -/
def throw (r : Reporter) (message : String) (internal : Bool) : Except Escape Unit × Reporter :=
  let r := r.note (.failure message internal)
  (if r.fatal then .error (.exit exitFailure) else .ok (), r)

/-- What becomes of an escape, or of none. -/
def guard (r : Reporter) : Option Escape → Guarded × Reporter
  | none => (.finished, r)
  | some (.exit code) => (.escaped (.exit code), r)
  | some .unfinished => (.escaped .unfinished, r)
  | some .interrupted => outcome (r.throw "keyboard interrupt" false) .suppressed
  | some .tooDeep => outcome (r.throw "maximum recursion depth exceeded" false) .suppressed
  | some (.failure message internal) => outcome (r.throw message internal) .suppressed
  | some (.foreign kind message) =>
    outcome (r.throw ("unknown error: '" ++ kind ++ ": " ++ message ++ "'") true)
      (.escaped (.foreign kind message))
where
  outcome (thrown : Except Escape Unit × Reporter) (otherwise : Guarded) : Guarded × Reporter :=
    match thrown with
    | (.error escape, r) => (.escaped escape, r)
    | (.ok (), r) => (otherwise, r)

/-- Complaining about source text leaves the runtime flag alone. -/
theorem complain_hadRuntimeError (r : Reporter) (t : Token) (message : String) :
    (r.complain t message).hadRuntimeError = r.hadRuntimeError := rfl

/-- A fault leaves the syntax flag alone. -/
theorem fault_hadSyntaxError (r : Reporter) (t : Token) (message : String) :
    (r.fault t message).hadSyntaxError = r.hadSyntaxError := rfl

/-- Resetting leaves everything but the syntax flag alone. -/
theorem reset_notices (r : Reporter) : r.reset.notices = r.notices := rfl

end Reporter

end Scriptlet
