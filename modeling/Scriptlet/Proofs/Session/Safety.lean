import Scriptlet.Proofs.Parse.Bounds
import Scriptlet.Proofs.Parse.ProperTrees
import Scriptlet.Proofs.Run.Defects
import Scriptlet.Session.Basic

/-!
# Scriptlet — what the parser returns is safe

The statements that come out of the parser can be run and dumped, whatever the
tokens were and however much was complained about: a run that ends has either
gone through or reported one fault, and every statement has a dump. The parser's
side is that its trees are proper, the machine's side that proper trees have no
defects.

## Results

* `Session.EndsWell`        — how a run may end.
* `endsWell_interpret`      — proper statements end well in every session.
* `program_safe`            — the statements of every program.
* `program_safe_badTarget`  — a program with a target that cannot be assigned to.
-/

namespace Scriptlet

/--
A run that went through reported nothing, one that broke off reported one fault,
and a run that did not end reported nothing either.
-/
def Session.EndsWell (before : Session) (result : Except Escape Unit × Session) : Prop :=
  match result.1 with
  | .ok () => result.2.reporter = before.reporter ∨
      ∃ f : Fault, result.2.reporter = before.reporter.fault f.token f.message
  | .error escape => escape = .unfinished ∧ result.2.reporter = before.reporter

theorem endsWell_interpret {statements : List Stmt} (h : Stmt.AllProper statements)
    (rounds : Nat) (s : Session) : s.EndsWell (s.interpret rounds statements) := by
  have hSound := sound_execAll rounds statements h
  unfold Session.interpret
  cases hRun : execAll rounds statements s.machine with
  | ok done machine => exact .inl rfl
  | error halt machine =>
    have hAllowed : halt.Allowed := hSound s.machine machine halt hRun
    cases halt with
    | fault f => exact .inr ⟨f, rfl⟩
    | defect d => exact hAllowed.elim
    | unfinished => exact ⟨rfl, rfl⟩

/--
The parser comes to an end of file, and what it returns is proper; so running it
ends well from every session, and all of it can be dumped.
-/
theorem program_safe (front : List Token) (eof : Token) (hEof : eof.kind = .eof) :
    (Parse.program (front ++ [eof])).rest ≠ [] ∧
      Stmt.AllProper (Parse.program (front ++ [eof])).statements ∧
      (∀ (rounds : Nat) (s : Session),
        s.EndsWell (s.interpret rounds (Parse.program (front ++ [eof])).statements)) ∧
      ∀ s ∈ (Parse.program (front ++ [eof])).statements, ∃ text, s.dump = .ok text := by
  have hProper := Parse.allProper_program (front ++ [eof])
  refine ⟨?_, hProper, ?_, ?_⟩
  · rw [Parse.rest_program]
    exact Parse.fromEof_ne_nil (by simp) hEof
  · intro rounds s
    exact endsWell_interpret hProper rounds s
  · intro s hs
    exact Stmt.Proper.dump s (hProper.mem hs)

/-- `-a = 1;`, in which only the left side is kept. -/
def badTarget : List Token :=
  [{ kind := .minus, lexeme := "-", line := 1 }, { kind := .identifier, lexeme := "a", line := 1 },
    { kind := .equal, lexeme := "=", line := 1 },
    { kind := .number, lexeme := "1", literal := .number 1, line := 1 },
    { kind := .semicolon, lexeme := ";", line := 1 }]

/-- The target is complained about, and what is left of the assignment is safe. -/
theorem program_safe_badTarget :
    (Parse.program (badTarget ++ [Token.endOfFile 1])).reports ≠ [] ∧
      Stmt.AllProper (Parse.program (badTarget ++ [Token.endOfFile 1])).statements ∧
      Session.EndsWell {} (Session.interpret 0
        (Parse.program (badTarget ++ [Token.endOfFile 1])).statements {}) := by
  obtain ⟨-, hProper, hEnds, -⟩ := program_safe badTarget (Token.endOfFile 1) rfl
  refine ⟨?_, hProper, hEnds 0 {}⟩
  have hReports : (Parse.program (badTarget ++ [Token.endOfFile 1])).reports.length = 1 := by cbv
  intro hNil
  rw [hNil] at hReports
  cases hReports

end Scriptlet
