import Scriptlet.Report.Reporter

/-!
# Scriptlet — what a reporter writes

Everything that a reporter has written is the lines of its notices, one after the
other. Its guard writes one more for an error that the program does not handle,
and ends the process if the reporter is fatal.

## Results

* `Notice.lines`            — notices as they are written.
* `Reporter.textIn`, `text_eq` — everything written, in any paint and in the reporter's own.
* `Escape.notice?`, `notices_guard` — what the guard writes.
* `guard_of_fatal`          — the guard of a fatal reporter.
-/

namespace Scriptlet

/-- Notices as they are written, one a line. -/
def Notice.lines (paint : Paint) (notices : List Notice) : String :=
  String.join (notices.map fun n => n.text paint ++ "\n")

/-- What the guard writes about an error, if anything. -/
def Escape.notice? : Escape → Option Notice
  | interrupted => some (.failure "keyboard interrupt" false)
  | tooDeep => some (.failure "maximum recursion depth exceeded" false)
  | failure message internal => some (.failure message internal)
  | foreign kind message =>
    some (.failure ("unknown error: '" ++ kind ++ ": " ++ message ++ "'") true)
  | exit _ => none
  | unfinished => none

namespace Reporter

/-- Everything written so far in another paint. -/
def textIn (paint : Paint) (r : Reporter) : String := Notice.lines paint r.notices.toList

theorem text_eq (r : Reporter) : r.text = r.textIn r.paint := by
  rw [text, textIn, Notice.lines, String.join, List.foldl_map, ← Array.foldl_toList]
  simp only [String.append_assoc]

variable {r : Reporter}

theorem notices_guard (escape? : Option Escape) (r : Reporter) :
    (r.guard escape?).2.notices = r.notices ++ (escape?.bind Escape.notice?).toList.toArray := by
  obtain ⟨color, fatal, syntaxFlag, runtimeFlag, notices⟩ := r
  cases escape? with
  | none => simp [guard]
  | some e =>
    cases fatal with
    | false => cases e <;> rfl
    | true => cases e <;> rfl

/-- The guard decides by the error and by whether the reporter is fatal, not by its color. -/
theorem guard_colored (on : Bool) (escape? : Option Escape) (r : Reporter) :
    ({ r with color := on } : Reporter).guard escape? =
      ((r.guard escape?).1, { (r.guard escape?).2 with color := on }) := by
  obtain ⟨color, fatal, syntaxFlag, runtimeFlag, notices⟩ := r
  cases escape? with
  | none => rfl
  | some e =>
    cases fatal with
    | false => cases e <;> rfl
    | true => cases e <;> rfl

end Reporter

end Scriptlet
