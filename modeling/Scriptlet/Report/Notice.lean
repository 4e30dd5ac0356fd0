import Scriptlet.Report.Paint

/-!
# Scriptlet — notices

What is written to the error output, before it becomes text: diagnostics about
a place in a program, general failures, and plain text.

* `Diagnostic.format` — `[line N] CategoryError where: message`.
* `Notice.text`       — a notice's line.
* `diagnostic_plain`  — a diagnostic without colors, spelled out.
-/

namespace Scriptlet

/-- A complaint about a place in a program. The place is empty where only the line is known. -/
structure Diagnostic where
  line : Int
  category : String
  place : String
  message : String
  deriving DecidableEq, Repr

/-- The line of a diagnostic, with the line marker and the category painted. -/
def Diagnostic.format (d : Diagnostic) (paint : Paint) : String :=
  let marker := paint ("[line " ++ toString d.line ++ "]") none [.bold]
  let label := paint (d.category ++ "Error") (some .red) [.bold]
  let place := if d.place.isEmpty then "" else " " ++ d.place
  marker ++ " " ++ label ++ place ++ ": " ++ d.message

/-- Something written to the error output. -/
inductive Notice where
  | diagnostic (d : Diagnostic)
  /-- A failure without a place; an internal one is the program's own fault. -/
  | failure (message : String) (internal : Bool)
  | plain (text : String)
  deriving DecidableEq, Repr

/-- The text of a notice, without the line end behind it. -/
def Notice.text (paint : Paint) : Notice → String
  | diagnostic d => d.format paint
  | failure message internal =>
    (if internal then paint "[internal] " (some .red) [.bold] else "")
      ++ paint "error: " (some .red) [.bold] ++ message
  | plain text => text

/-- Without colors a diagnostic is the marker, the label, the place and the message. -/
theorem diagnostic_plain (d : Diagnostic) (h : d.place ≠ "") :
    d.format .plain = "[line " ++ toString d.line ++ "]" ++ " " ++ (d.category ++ "Error")
      ++ (" " ++ d.place) ++ ": " ++ d.message := by
  simp [Diagnostic.format, Paint.plain, h]

end Scriptlet
