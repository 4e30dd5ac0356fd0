import Scriptlet.Proofs.Grammar.OtherTokens
import Scriptlet.Proofs.Lexer.Joined
import Scriptlet.Proofs.Parse.Acceptance
import Scriptlet.Proofs.Run.Likeness
import Scriptlet.Proofs.Session.Sources

/-!
# Scriptlet — a program in pieces

Two sources that nothing is wrong with may be run one after the other or as one
source with a line feed between them. It makes no difference but for one number:
a fault in the second source is reported on a line further on. A fault in the
first source ends both, if they are one.

## Results

* `clean_join`              — reading two sources as one.
* `allEnd_append_iff`       — statements behind others.
* `allEnd_later_iff`        — statements on other lines.
* `runs_join`               — two sources as one.
-/

namespace Scriptlet

open Run

-- ---------------------------------------------------------------------------
-- Reading
-- ---------------------------------------------------------------------------

theorem keepsKinds_later (lines : Int) : Grammar.KeepsKinds (Token.later lines) where
  kind _ := rfl
  literal _ := rfl

/-- A source that nothing is complained about is a program, and its tree is what is read. -/
theorem Lexed.programTree_iff {source : String} {tokens : List Token} (h : Lexed source tokens)
    {statements : List Stmt} :
    Grammar.ProgramTree tokens statements ↔ Clean source ∧ statementsIn source = statements := by
  have hEof : (Token.endOfFile (lineAfter 1 source.toList)).kind = .eof := rfl
  rw [Parse.programTree_iff h.noEnd hEof, ← h.lexes]
  unfold Clean statementsIn
  rw [h.unremarked]
  simp

theorem clean_join {a b : String} (hA : Clean a) (hB : Clean b) :
    Clean (a ++ "\n" ++ b) ∧ statementsIn (a ++ "\n" ++ b) = statementsIn a ++
      Stmt.mapAllTokens (Token.later (linesOf a)) (Token.later (linesOf a)) (statementsIn b) := by
  obtain ⟨front, back, hFront, hBack, hWhole⟩ := lex_join hA.1 hB.1
  have hFrontTree := hFront.programTree_iff.mpr ⟨hA, rfl⟩
  have hBackTree := hBack.programTree_iff.mpr ⟨hB, rfl⟩
  exact hWhole.programTree_iff.mp
    (hFrontTree.append (hBackTree.mapTokens (keepsKinds_later (linesOf a))))

-- ---------------------------------------------------------------------------
-- Running
-- ---------------------------------------------------------------------------

theorem execAll_append (rounds : Nat) (statements others : List Stmt) :
    execAll rounds (statements ++ others) = (do
      execAll rounds statements
      execAll rounds others) := by
  induction statements with
  | nil => rfl
  | cons s rest ih =>
    rw [List.cons_append, execAll, execAll, ih, bind_assoc]

/-- Statements behind others run if those halt nowhere, from where those end. -/
theorem allEnd_append_iff {statements others : List Stmt} {m : Machine} {ending : Ending Unit} :
    Stmt.AllEnd (statements ++ others) m ending ↔
      (∃ halt n, Stmt.AllEnd statements m (.error halt n) ∧ ending = .error halt n) ∨
        ∃ n, Stmt.AllEnd statements m (.ok () n) ∧ Stmt.AllEnd others n ending := by
  have hRuns : (fun rounds => execAll rounds (statements ++ others)) = fun rounds => _ :=
    funext fun rounds => execAll_append rounds statements others
  unfold Stmt.AllEnd
  rw [hRuns, comesTo_bind (steady_execAll statements) fun _ => steady_execAll others]
  exact or_congr Iff.rfl ⟨fun ⟨(), n, h⟩ => ⟨n, h⟩, fun ⟨n, h⟩ => ⟨(), n, h⟩⟩

section

variable {statements others : List Stmt} {m n : Machine} {halt : Halt} {ending : Ending Unit}

theorem allEnd_behind_ok (h : Stmt.AllEnd statements m (.ok () n)) :
    Stmt.AllEnd (statements ++ others) m ending ↔ Stmt.AllEnd others n ending := by
  rw [allEnd_append_iff]
  constructor
  · rintro (⟨halt, k, hHalts, -⟩ | ⟨k, hOk, hRest⟩)
    · cases allEnd_unique h hHalts
    · cases allEnd_unique h hOk
      exact hRest
  · intro hRest
    exact .inr ⟨n, h, hRest⟩

theorem allEnd_behind_halt (h : Stmt.AllEnd statements m (.error halt n)) :
    Stmt.AllEnd (statements ++ others) m ending ↔ ending = .error halt n := by
  rw [allEnd_append_iff]
  constructor
  · rintro (⟨other, k, hHalts, rfl⟩ | ⟨k, hOk, -⟩)
    · exact (allEnd_unique h hHalts).symm
    · cases allEnd_unique h hOk
  · intro hEnding
    exact .inl ⟨halt, n, h, hEnding⟩

end

/-- A halt at another token. -/
def Halt.mapToken (f : Token → Token) : Halt → Halt
  | fault { token, cause } => fault { token := f token, cause }
  | defect d => defect d
  | unfinished => unfinished

/-- An ending at another token. -/
def Ending.mapToken (f : Token → Token) : Ending Unit → Ending Unit
  | .ok value m => .ok value m
  | .error halt m => .error (halt.mapToken f) m

theorem Halt.Like.eq_mapToken {f : Token → Token} {halt other : Halt}
    (h : halt.Like (Token.Becomes f) (Token.Becomes f) other) : other = halt.mapToken f := by
  cases h with
  | operator hTokens _ => rw [hTokens, Halt.mapToken]
  | name hTokens => rw [hTokens, Fault.undefined, Fault.undefined, Halt.mapToken]
  | defect d => rfl
  | unfinished => rfl

/-- Lines do not matter to a run: the machine is the same, whatever the lines are. -/
theorem likeness_later (lines : Int) :
    Likeness (Token.Becomes (Token.later lines)) (Token.Becomes (Token.later lines))
      (fun _ => True) fun _ => Eq := by
  have hLexeme : ∀ t u, Token.Becomes (Token.later lines) t u → u.lexeme = t.lexeme := by
    rintro t _ rfl
    rfl
  refine likeness_of_text ?_ hLexeme hLexeme
  rintro t _ rfl
  rfl

theorem execAll_later (rounds : Nat) (lines : Int) (statements : List Stmt) (m : Machine) :
    execAll rounds (Stmt.mapAllTokens (Token.later lines) (Token.later lines) statements) m =
      Ending.mapToken (Token.later lines) (execAll rounds statements m) := by
  have hLike := (likeness_later lines).like_execAll rounds 0 statements
    (Stmt.allLike_becomes _ _ statements)
    (fun _ _ _ => trivial) (rfl : m = m)
  generalize execAll rounds statements m = ending at hLike ⊢
  generalize execAll rounds (Stmt.mapAllTokens _ _ statements) m = other at hLike ⊢
  cases hLike with
  | ok hMachines =>
    rw [hMachines]
    rfl
  | error hHalts hMachines =>
    rw [hHalts.eq_mapToken, hMachines]
    rfl

theorem Ending.finished_mapToken {f : Token → Token} {ending : Ending Unit} :
    (ending.mapToken f).Finished ↔ ending.Finished := by
  cases ending with
  | ok done m => exact Iff.rfl
  | error halt m => cases halt <;> exact Iff.rfl

/-- Statements on later lines end as they do, with the token of a fault on a later line. -/
theorem allEnd_later_iff {lines : Int} {statements : List Stmt} {m : Machine}
    {ending : Ending Unit} :
    Stmt.AllEnd (Stmt.mapAllTokens (Token.later lines) (Token.later lines) statements) m ending ↔
      ∃ plain, Stmt.AllEnd statements m plain ∧
        ending = Ending.mapToken (Token.later lines) plain := by
  constructor
  · rintro ⟨hFinished, rounds, hRun⟩
    have hLater : Ending.mapToken _ _ = ending := (execAll_later ..).symm.trans hRun
    subst hLater
    exact ⟨_, ⟨Ending.finished_mapToken.mp hFinished, rounds, rfl⟩, rfl⟩
  · rintro ⟨plain, ⟨hFinished, rounds, hRun⟩, rfl⟩
    refine ⟨Ending.finished_mapToken.mpr hFinished, rounds, ?_⟩
    have hPlain : execAll rounds statements m = plain := hRun
    rw [← hPlain]
    exact execAll_later rounds lines statements m

-- ---------------------------------------------------------------------------
-- Sessions
-- ---------------------------------------------------------------------------

/-- A notice about a line further on, if it is about a line. -/
def Notice.later (lines : Int) : Notice → Notice
  | diagnostic d => diagnostic { d with line := d.line + lines }
  | failure message internal => failure message internal
  | plain text => plain text

namespace Session

variable {source : String} {s s' : Session}

theorem faultsOf_mapToken (lines : Int) (ending : Ending Unit) :
    faultsOf (ending.mapToken (Token.later lines)) =
      (faultsOf ending).map (Notice.later lines) := by
  cases ending with
  | ok done m => rfl
  | error halt m => cases halt <;> rfl

theorem machine_mapToken (f : Token → Token) (ending : Ending Unit) :
    (ending.mapToken f).machine = ending.machine := by
  cases ending <;> rfl

/-- A session that nothing was complained about, with nothing to complain about and no dumps. -/
theorem runs_of_clean_iff (hClean : Clean source) (hDebug : s.debug = false)
    (hFlag : s.reporter.hadSyntaxError = false) :
    s.Runs source s' ↔
      ∃ ending, Stmt.AllEnd (statementsIn source) s.machine ending ∧ s' = s.settle ending := by
  have hReading : s.afterReading source = s := by
    unfold afterReading
    rw [clean_iff.mp hClean, Reporter.complained_nil]
  have hReady : s.ready source = s := by
    unfold ready
    rw [hReading, start_of_not_debug _ hDebug]
  rw [runs_iff_runsTo]
  constructor
  · intro h
    cases h with
    | blocked hBlocked =>
      rw [hReading, hFlag] at hBlocked
      cases hBlocked
    | @ended ending hFlag hEnds =>
      rw [hReady] at hEnds ⊢
      exact ⟨ending, hEnds, rfl⟩
  · rintro ⟨ending, hEnds, rfl⟩
    have hOpen : (s.afterReading source).reporter.hadSyntaxError = false := by
      rw [hReading]
      exact hFlag
    have hEnds' : Stmt.AllEnd (statementsIn source) (s.ready source).machine ending := by
      rw [hReady]
      exact hEnds
    have hRuns := RunsTo.ended hOpen hEnds'
    rw [hReady] at hRuns
    exact hRuns

/-- A fault on a later line is written as it is, about a later line. -/
theorem settle_later (s : Session) (lines : Int) (ending : Ending Unit) :
    s.settle (ending.mapToken (Token.later lines)) =
      { s.settle ending with
        reporter := { (s.settle ending).reporter with
          notices := s.reporter.notices ++
            ((faultsOf ending).map (Notice.later lines)).toArray } } := by
  rw [settle_eq, settle_eq, faultsOf_mapToken, machine_mapToken]
  simp [Reporter.faulted]

/-- How a session settles does not depend on its machine before. -/
theorem settle_settle_ok (s : Session) (m : Machine) (ending : Ending Unit) :
    (s.settle (.ok () m)).settle ending = s.settle ending := by
  rw [settle_eq, settle_eq s ending]
  rfl

/-- A session says by its notices whether its statements ended with a fault. -/
theorem notices_settle_iff (s : Session) (ending : Ending Unit) (written : List Notice) :
    (s.settle ending).reporter.notices = s.reporter.notices ++ written.toArray ↔
      faultsOf ending = written := by
  rw [reporter_settle]
  constructor
  · intro h
    have hLists := congrArg Array.toList h
    rw [Array.toList_append] at hLists
    have hFaults : s.reporter.notices.toList ++ faultsOf ending =
        s.reporter.notices.toList ++ written := (Array.toList_append ..).symm.trans hLists
    exact List.append_cancel_left hFaults
  · rintro rfl
    rfl

/--
Two sources that nothing is wrong with, in a session that was not complained to
and dumps nothing. As one source, with a line feed between them, nothing is
wrong with them either. If the first one ends without a fault, running them as
one comes to just what running the second one behind the first one does, with a
fault on a line further on. If it ends with one, the second one does not run.
-/
theorem runs_join {a b : String} (hA : Clean a) (hB : Clean b) {s : Session}
    (hDebug : s.debug = false) (hFlag : s.reporter.hadSyntaxError = false) :
    Clean (a ++ "\n" ++ b) ∧ ∀ s₁, s.Runs a s₁ →
      (s₁.reporter.notices = s.reporter.notices → ∀ s₃, s.Runs (a ++ "\n" ++ b) s₃ ↔
        ∃ (s₂ : Session) (written : List Notice), s₁.Runs b s₂ ∧
          s₂.reporter.notices = s₁.reporter.notices ++ written.toArray ∧
          s₃ = { s₂ with reporter := { s₂.reporter with
            notices := s₁.reporter.notices ++
              (written.map (Notice.later (linesOf a))).toArray } }) ∧
      (s₁.reporter.notices ≠ s.reporter.notices →
        ∀ s₃, s.Runs (a ++ "\n" ++ b) s₃ ↔ s₃ = s₁) := by
  obtain ⟨hClean, hStatements⟩ := clean_join hA hB
  refine ⟨hClean, ?_⟩
  intro s₁ hRuns
  obtain ⟨first, hFirst, rfl⟩ := (runs_of_clean_iff hA hDebug hFlag).mp hRuns
  have hWhole : ∀ s₃, s.Runs (a ++ "\n" ++ b) s₃ ↔ _ := fun s₃ =>
    runs_of_clean_iff hClean hDebug hFlag
  rw [hStatements] at hWhole
  simp only [hWhole]
  have hNotices := notices_settle_iff s first []
  rw [Array.append_empty] at hNotices
  rw [ne_eq, hNotices]
  rcases ending_cases hFirst with ⟨m, rfl⟩ | ⟨f, m, rfl⟩
  · refine ⟨fun _ s₃ => ?_, fun hSome => absurd rfl hSome⟩
    have hSecond : ∀ s₂, (s.settle (.ok () m)).Runs b s₂ ↔ _ := fun s₂ =>
      runs_of_clean_iff hB hDebug hFlag
    simp only [hSecond, allEnd_behind_ok hFirst, allEnd_later_iff, settle_settle_ok]
    constructor
    · rintro ⟨ending, ⟨plain, hPlain, rfl⟩, rfl⟩
      have hWritten := (notices_settle_iff s plain (faultsOf plain)).mpr rfl
      exact ⟨s.settle plain, faultsOf plain, ⟨plain, hPlain, rfl⟩, hWritten,
        settle_later s (linesOf a) plain⟩
    · rintro ⟨s₂, written, ⟨plain, hPlain, rfl⟩, hWritten, rfl⟩
      obtain rfl := (notices_settle_iff s plain written).mp hWritten
      exact ⟨_, ⟨plain, hPlain, rfl⟩, (settle_later s (linesOf a) plain).symm⟩
  · refine ⟨fun hNone => (List.cons_ne_nil _ _ hNone).elim, fun _ s₃ => ?_⟩
    simp only [allEnd_behind_halt hFirst]
    constructor
    · rintro ⟨ending, rfl, rfl⟩
      rfl
    · rintro rfl
      exact ⟨_, rfl, rfl⟩

/-- The first source ends with an open `if`; the second one faults on its first line. -/
theorem runs_join_openIf :
    Clean ("if (nil)\nprint true;" ++ "\n" ++ "print x;") ∧
      ∃ s₃, Runs ("if (nil)\nprint true;" ++ "\n" ++ "print x;") {} s₃ ∧
        s₃.reporter.notices = #[.diagnostic
          { line := 3, category := "Runtime", place := "at 'x'",
            message := "Undefined variable 'x'." }] := by
  have hA : Clean "if (nil)\nprint true;" := clean_iff.mpr (by decide +kernel)
  have hB : Clean "print x;" := clean_iff.mpr (by decide +kernel)
  have hFirst : Stmt.AllEnd (statementsIn "if (nil)\nprint true;") {} (.ok () {}) :=
    ⟨trivial, 0, by cbv⟩
  let fault := Fault.undefined { kind := .identifier, lexeme := "x", line := 1 }
  have hSecond : Stmt.AllEnd (statementsIn "print x;") {} (.error (.fault fault) {}) :=
    ⟨trivial, 0, by cbv⟩
  have hRunsA : Runs "if (nil)\nprint true;" {} {} :=
    (runs_of_clean_iff hA rfl rfl).mpr ⟨_, hFirst, rfl⟩
  have hRunsB : Runs "print x;" {} (settle {} (.error (.fault fault) {})) :=
    (runs_of_clean_iff hB rfl rfl).mpr ⟨_, hSecond, rfl⟩
  obtain ⟨hClean, hRuns⟩ := runs_join hA hB (s := {}) rfl rfl
  refine ⟨hClean, _, ((hRuns {} hRunsA).1 rfl _).mpr ⟨_, [fault.notice], hRunsB, rfl, rfl⟩, ?_⟩
  decide +kernel

end Session

end Scriptlet
