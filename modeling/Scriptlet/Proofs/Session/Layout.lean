import Mathlib
import Scriptlet.Proofs.Lexer.Joined
import Scriptlet.Proofs.Parse.Likeness
import Scriptlet.Proofs.Session.Sources

/-!
# Scriptlet — layout

Blanks, line ends and comments between tokens do not matter: all that they can
change is the lines of the tokens. A line flows from a token into the tree and
from there into the complaints and the fault of a run, and nowhere else. So two
sources with the same tokens, lines aside, are run alike by every session.

## Results

* `Notice.withoutLine`      — what is written, all but the line.
* `Token.SameText`          — tokens that differ in the line at most.
* `allLike_statementsIn`, `complaintsAbout_withoutLine` — what is read from the sources.
* `faultsOf_withoutLine`    — what is written for endings that are alike.
* `run_laid_out_otherwise`  — runs of the sources.
-/

namespace Scriptlet

-- ---------------------------------------------------------------------------
-- Lines
-- ---------------------------------------------------------------------------

/-- What is written, without the line that it is about. -/
def Notice.withoutLine : Notice → Notice
  | diagnostic d => diagnostic { d with line := 0 }
  | failure message internal => failure message internal
  | plain text => plain text

/-- Tokens that differ in the line at most. -/
def Token.SameText (t u : Token) : Prop := t.withoutLine = u.withoutLine

theorem Token.sameText_iff {t u : Token} :
    t.SameText u ↔ u.kind = t.kind ∧ u.lexeme = t.lexeme ∧ u.literal = t.literal := by
  unfold SameText withoutLine
  rw [mk.injEq]
  constructor
  · rintro ⟨hKind, hLexeme, hLiteral, -⟩
    exact ⟨hKind.symm, hLexeme.symm, hLiteral.symm⟩
  · rintro ⟨hKind, hLexeme, hLiteral⟩
    exact ⟨hKind.symm, hLexeme.symm, hLiteral.symm, rfl⟩

theorem Token.SameText.kind_eq {t u : Token} (h : t.SameText u) : u.kind = t.kind :=
  (sameText_iff.mp h).1

theorem Token.SameText.lexeme_eq {t u : Token} (h : t.SameText u) : u.lexeme = t.lexeme :=
  (sameText_iff.mp h).2.1

/-- Lists become the same if their members do, place by place. -/
theorem forall₂_iff_map_eq {α β : Type} {f : α → β} {xs ys : List α} :
    List.Forall₂ (fun x y => f x = f y) xs ys ↔ xs.map f = ys.map f := by
  have hEq : List.Forall₂ Eq (xs.map f) (ys.map f) = (xs.map f = ys.map f) := by
    rw [List.forall₂_eq_eq_eq]
  rw [← hEq, List.forall₂_map_left_iff, List.forall₂_map_right_iff]

-- ---------------------------------------------------------------------------
-- Sources
-- ---------------------------------------------------------------------------

theorem readAlike_sameText : Parse.ReadAlike Token.SameText Eq where
  kind _ _ h := h.kind_eq
  literal _ _ h _ := (Token.sameText_iff.mp h).2.2.symm
  bool _ := rfl
  nil := rfl

/-- A report is about the kind and the text of a token, and its line. -/
theorem Parse.Report.Like.notice_withoutLine {r s : Report} (h : r.Like Token.SameText s) :
    r.notice.withoutLine = s.notice.withoutLine := by
  have hEof : s.token.isEof = r.token.isEof := by
    unfold Token.isEof
    rw [h.token.kind_eq]
  unfold notice Reporter.placeOf
  rw [hEof, h.token.lexeme_eq, h.complaint]
  rfl

section

variable {a b : String} (hTokens : (lex a).1.map Token.withoutLine = (lex b).1.map Token.withoutLine)

include hTokens

theorem like_program_lex :
    (Parse.program (lex a).1).Like Token.SameText Eq (Parse.program (lex b).1) :=
  Parse.like_program readAlike_sameText (forall₂_iff_map_eq.mpr hTokens)

/-- The statements of the sources differ in the lines of tokens only. -/
theorem allLike_statementsIn :
    Stmt.AllLike Token.SameText Token.SameText Eq (statementsIn a) (statementsIn b) :=
  (like_program_lex hTokens).statements

/-- The complaints about their tokens differ in the lines only. -/
theorem complaintsAbout_withoutLine (ha : (lex a).2 = []) (hb : (lex b).2 = []) :
    (complaintsAbout a).map Notice.withoutLine = (complaintsAbout b).map Notice.withoutLine := by
  unfold complaintsAbout
  rw [ha, hb, List.map_nil, List.nil_append, List.nil_append, List.map_map, List.map_map,
    ← forall₂_iff_map_eq]
  exact (like_program_lex hTokens).reports.imp fun _ _ h => h.notice_withoutLine

end

-- ---------------------------------------------------------------------------
-- Runs
-- ---------------------------------------------------------------------------

theorem isEmpty_eq_of_map_eq {α β : Type} {f : α → β} {xs ys : List α}
    (h : xs.map f = ys.map f) : ys.isEmpty = xs.isEmpty := by
  have hEmpty : (ys.map f).isEmpty = (xs.map f).isEmpty := by rw [h]
  rwa [List.isEmpty_map, List.isEmpty_map] at hEmpty

/-- Of what is written the flags show only whether it is anything. -/
theorem Reporter.written_eq (r : Reporter) {complaints complaints' faults faults' : List Notice}
    (hComplaints : complaints'.isEmpty = complaints.isEmpty)
    (hFaults : faults'.isEmpty = faults.isEmpty) :
    (r.complained complaints').faulted faults' =
      { (r.complained complaints).faulted faults with
        notices := r.notices ++ (complaints' ++ faults').toArray } := by
  rw [← r.notices_written]
  unfold faulted complained
  rw [hComplaints, hFaults]

namespace Session

theorem likeness_sameText : Likeness Token.SameText Token.SameText (fun _ => True) fun _ => Eq :=
  likeness_of_text (fun _ _ h => h.kind_eq) (fun _ _ h => h.lexeme_eq) fun _ _ h => h.lexeme_eq

/-- A fault is about the text of a token, and its line. -/
theorem faultsOf_withoutLine {ending other : Ending Unit}
    (h : Ending.Like Token.SameText Token.SameText Eq ending other) :
    (faultsOf ending).map Notice.withoutLine = (faultsOf other).map Notice.withoutLine := by
  have hNotice : ∀ {t u : Token} (cause : FaultCause), t.SameText u →
      ({ token := t, cause } : Fault).notice.withoutLine =
        ({ token := u, cause } : Fault).notice.withoutLine := by
    intro t u cause hText
    unfold Fault.notice Fault.message Reporter.placeOf
    rw [hText.lexeme_eq]
    rfl
  cases h with
  | ok hMachines => rfl
  | error hHalts hMachines =>
    cases hHalts with
    | operator hText hCause => exact congrArg (fun n => [n]) (hNotice _ hText)
    | name hText => exact congrArg (fun n => [n]) (hNotice .undefinedVariable hText)
    | defect d => rfl
    | unfinished => rfl

section

variable {a b : String} (hTokens : (lex a).1.map Token.withoutLine = (lex b).1.map Token.withoutLine)

include hTokens

/-- Both runs start on the same machine, since dumps show no lines. -/
theorem machine_ready_laid_out (s : Session) : (s.ready b).machine = (s.ready a).machine := by
  have hDumps : Stmt.dumpAll (statementsIn a) = Stmt.dumpAll (statementsIn b) :=
    Stmt.AllLike.dumpAll_eq (fun _ _ h => h.lexeme_eq.symm) (fun _ _ h => h.lexeme_eq.symm) _
      (allLike_statementsIn hTokens)
  show s.start (statementsIn b) = s.start (statementsIn a)
  unfold start
  rw [hDumps]

/-- They end alike there. -/
theorem like_execAll_laid_out (rounds : Nat) (m : Machine) :
    Ending.Like Token.SameText Token.SameText Eq (execAll rounds (statementsIn a) m)
      (execAll rounds (statementsIn b) m) :=
  likeness_sameText.like_execAll rounds 0 _ (allLike_statementsIn hTokens)
    (fun _ _ _ => trivial) (rfl : m = m)

end

variable {a b : String}

/-- Where statements end alike a session settles alike, but for what was written. -/
theorem settle_laid_out (s : Session) {ending other : Ending Unit}
    (hNone : (complaintsAbout b).isEmpty = (complaintsAbout a).isEmpty)
    (hRun : Ending.Like Token.SameText Token.SameText Eq ending other) :
    (s.ready b).settle other = ((s.ready a).settle ending).withNotices
      (s.reporter.notices ++ (complaintsAbout b ++ faultsOf other).toArray) := by
  have hMachine : Ending.machine ending = Ending.machine other := hRun.machine
  have hReporter := s.reporter.written_eq hNone (isEmpty_eq_of_map_eq (faultsOf_withoutLine hRun))
  rw [settle_eq, settle_eq, hMachine]
  exact congrArg (fun reporter : Reporter =>
    ({ s with machine := Ending.machine other, reporter } : Session)) hReporter

/--
Two sources whose tokens are the same but for their lines, run in one session.
Given the same number of rounds both runs come to the same: they give statements
that are the same but for lines, and they leave the same session, but for the
lines of the diagnostics that they wrote.
-/
theorem run_laid_out_otherwise (ha : (lex a).2 = []) (hb : (lex b).2 = [])
    (hTokens : (lex a).1.map Token.withoutLine = (lex b).1.map Token.withoutLine)
    (rounds : Nat) (s : Session) :
    let here := s.run rounds a
    let there := s.run rounds b
    here.1.map (Stmt.mapAllTokens Token.withoutLine Token.withoutLine) =
        there.1.map (Stmt.mapAllTokens Token.withoutLine Token.withoutLine) ∧
      ∃ written written' : List Notice,
        written.map Notice.withoutLine = written'.map Notice.withoutLine ∧
        here.2.reporter.notices = s.reporter.notices ++ written.toArray ∧
        there.2 = here.2.withNotices (s.reporter.notices ++ written'.toArray) := by
  intro here there
  have hComplaints := complaintsAbout_withoutLine hTokens ha hb
  have hStatements : Stmt.mapAllTokens Token.withoutLine Token.withoutLine (statementsIn a) =
      Stmt.mapAllTokens Token.withoutLine Token.withoutLine (statementsIn b) :=
    Stmt.AllLike.mapAllTokens_eq (fun _ _ h => h) (fun _ _ h => h) _
      (allLike_statementsIn hTokens)
  have hNone := isEmpty_eq_of_map_eq hComplaints
  have hFlag : (s.afterReading b).reporter.hadSyntaxError =
      (s.afterReading a).reporter.hadSyntaxError :=
    congrArg (fun none => s.reporter.hadSyntaxError || !none) hNone
  cases hRead : (s.afterReading a).reporter.hadSyntaxError with
  | true =>
    have hHere : here = _ := run_of_flag hRead
    have hThere : there = _ := run_of_flag (hFlag.trans hRead)
    rw [hHere, hThere]
    refine ⟨congrArg Except.ok hStatements, complaintsAbout a, complaintsAbout b, hComplaints,
      rfl, ?_⟩
    unfold afterReading Reporter.complained
    rw [hNone]
    rfl
  | false =>
    have hHere : here = _ := run_eq_settle hRead
    have hThere : there = _ := run_eq_settle (hFlag.trans hRead)
    have hRun := like_execAll_laid_out hTokens rounds (s.ready a).machine
    rw [machine_ready_laid_out hTokens] at hThere
    rw [hHere, hThere]
    generalize execAll rounds (statementsIn a) (s.ready a).machine = ending at hRun ⊢
    generalize execAll rounds (statementsIn b) (s.ready a).machine = other at hRun ⊢
    refine ⟨?_, complaintsAbout a ++ faultsOf ending, complaintsAbout b ++ faultsOf other, ?_, ?_,
      settle_laid_out s hNone hRun⟩
    · rw [outcomeOf_of_like hRun]
      cases outcomeOf ending with
      | error e => rfl
      | ok done => exact congrArg Except.ok hStatements
    · rw [List.map_append, List.map_append, hComplaints, faultsOf_withoutLine hRun]
    · dsimp only
      rw [reporter_settle]
      exact s.reporter.notices_written _ _

/-- `print true; b;` on one line, and on three with a comment: only the line of the fault differs. -/
theorem run_laid_out_otherwise_commented :
    let a := "print true; b;"
    let b := "print // whatever\n\n  true;b ;"
    let here := Session.run 0 a {}
    let there := Session.run 0 b {}
    (lex a).2 = [] ∧ (lex b).2 = [] ∧
      (lex a).1.map Token.withoutLine = (lex b).1.map Token.withoutLine ∧
      there.2.machine.printed = here.2.machine.printed ∧ here.2.machine.printed = #["true"] ∧
      here.2.reporter.notices = #[.diagnostic
        { line := 1, category := "Runtime", place := "at 'b'",
          message := "Undefined variable 'b'." }] ∧
      there.2.reporter.notices = #[.diagnostic
        { line := 3, category := "Runtime", place := "at 'b'",
          message := "Undefined variable 'b'." }] := by
  intro a b here there
  have ha : (lex a).2 = [] := by decide +kernel
  have hb : (lex b).2 = [] := by decide +kernel
  have hTokens : (lex a).1.map Token.withoutLine = (lex b).1.map Token.withoutLine := by
    cbv
  obtain ⟨-, written, written', -, -, hThere⟩ := run_laid_out_otherwise ha hb hTokens 0 {}
  have hMachine : there.2.machine = here.2.machine := by
    have hSame : there.2 = _ := hThere
    rw [hSame, machine_withNotices]
  refine ⟨ha, hb, hTokens, ?_, by decide +kernel, by decide +kernel, by decide +kernel⟩
  rw [hMachine]

end Session

end Scriptlet
