import Scriptlet.Proofs.Parse.ProperTrees
import Scriptlet.Proofs.Run.Defects
import Scriptlet.Proofs.Run.Likeness
import Scriptlet.Proofs.Run.Rounds
import Scriptlet.Session.Basic

/-!
# Scriptlet — what running a source comes to

Running a source writes what is wrong with it; if nothing is or was wrong, the
statements run and one fault of theirs may be written too. Here this is said of
runs that end, without a number of rounds: a session's run of a source comes to
another session, which the source and the first session determine.

## Results

* `complaintsAbout`         — what reading a source writes.
* `addRemarks_eq`, `addReports_eq` — the reporter that wrote it.
* `Session.RunsTo`          — the session that running a source comes to.
* `run_ends`, `runs_iff_runsTo` — it is what `Session.run` comes to, which raises nothing.
-/

namespace Scriptlet

-- ---------------------------------------------------------------------------
-- Complaints
-- ---------------------------------------------------------------------------

/-- What is written for a remark about the characters of a source. -/
def Remark.notice (m : Remark) : Notice :=
  .diagnostic { line := m.line, category := "Parse", place := "", message := m.complaint.message }

/-- What is written for a report about the tokens of a source. -/
def Parse.Report.notice (m : Parse.Report) : Notice :=
  let place := if m.token.isEof then "at end of file" else Reporter.placeOf m.token
  .diagnostic { line := m.token.line, category := "Parse", place, message := m.complaint.message }

/-- What is written for a fault. -/
def Fault.notice (f : Fault) : Notice :=
  .diagnostic { line := f.token.line, category := "Runtime",
                place := Reporter.placeOf f.token, message := f.message }

/-- The statements that are read from a source. -/
def statementsIn (source : String) : List Stmt := (Parse.program (lex source).1).statements

/-- What reading a source writes, complaints about characters first. -/
def complaintsAbout (source : String) : List Notice :=
  (lex source).2.map Remark.notice ++
    (Parse.program (lex source).1).reports.map Parse.Report.notice

/-- A source that nothing is complained about. -/
def Clean (source : String) : Prop :=
  (lex source).2 = [] ∧ (Parse.program (lex source).1).reports = []

theorem clean_iff {source : String} : Clean source ↔ complaintsAbout source = [] := by
  unfold Clean complaintsAbout
  rw [List.append_eq_nil_iff, List.map_eq_nil_iff, List.map_eq_nil_iff]

namespace Reporter

/-- The reporter after it complained: the notices are written, and any sets the flag. -/
def complained (r : Reporter) (complaints : List Notice) : Reporter :=
  { r with
    hadSyntaxError := r.hadSyntaxError || !complaints.isEmpty
    notices := r.notices ++ complaints.toArray }

theorem complained_nil (r : Reporter) : r.complained [] = r := by
  simp [complained]

theorem complained_append (r : Reporter) (first second : List Notice) :
    (r.complained first).complained second = r.complained (first ++ second) := by
  cases first with
  | nil => simp [complained]
  | cons m rest => simp [complained]

theorem addRemarks_eq (r : Reporter) (remarks : List Remark) :
    r.addRemarks remarks = r.complained (remarks.map Remark.notice) := by
  induction remarks generalizing r with
  | nil => exact (complained_nil r).symm
  | cons m rest ih =>
    have hFirst : r.complainAtLine m.line m.complaint.message = r.complained [m.notice] := by
      simp [complained, complainAtLine, report, note, Remark.notice]
    show (r.complainAtLine m.line m.complaint.message).addRemarks rest = _
    rw [ih, hFirst, complained_append]
    rfl

theorem addReports_eq (r : Reporter) (reports : List Parse.Report) :
    r.addReports reports = r.complained (reports.map Parse.Report.notice) := by
  induction reports generalizing r with
  | nil => exact (complained_nil r).symm
  | cons m rest ih =>
    have hFirst : r.complain m.token m.complaint.message = r.complained [m.notice] := by
      simp [complained, complain, report, note, Parse.Report.notice]
    show (r.complain m.token m.complaint.message).addReports rest = _
    rw [ih, hFirst, complained_append]
    rfl

/-- The reporter after runs broke off: the notices are written, and any sets the flag. -/
def faulted (r : Reporter) (faults : List Notice) : Reporter :=
  { r with
    hadRuntimeError := r.hadRuntimeError || !faults.isEmpty
    notices := r.notices ++ faults.toArray }

theorem faulted_nil (r : Reporter) : r.faulted [] = r := by
  simp [faulted]

theorem fault_eq (r : Reporter) (f : Fault) :
    r.fault f.token f.message = r.faulted [f.notice] := by
  simp [faulted, fault, report, note, Fault.notice]

theorem notices_written (r : Reporter) (complaints faults : List Notice) :
    ((r.complained complaints).faulted faults).notices =
      r.notices ++ (complaints ++ faults).toArray := by
  simp [complained, faulted]

end Reporter

-- ---------------------------------------------------------------------------
-- Sessions
-- ---------------------------------------------------------------------------

namespace Session

variable {rounds : Nat} {source : String} {s s' : Session}

/-- A session with other notices. -/
def withNotices (s : Session) (notices : Array Notice) : Session :=
  { s with reporter := { s.reporter with notices } }

@[simp]
theorem machine_withNotices (s : Session) (notices : Array Notice) :
    (s.withNotices notices).machine = s.machine := rfl

/-- The session that has read a source. -/
def afterReading (source : String) (s : Session) : Session :=
  { s with reporter := s.reporter.complained (complaintsAbout source) }

theorem read_eq (source : String) (s : Session) :
    s.read source = (statementsIn source, s.afterReading source) := by
  unfold read afterReading statementsIn complaintsAbout
  rw [← Reporter.complained_append, ← Reporter.addRemarks_eq, ← Reporter.addReports_eq]

/-- The machine on which statements start, which has printed their dumps if there are any. -/
def start (statements : List Stmt) (s : Session) : Machine :=
  match s.debug, Stmt.dumpAll statements with
  | true, .ok lines => lines.foldl Machine.print s.machine
  | _, _ => s.machine

theorem start_of_not_debug (statements : List Stmt) (h : s.debug = false) :
    s.start statements = s.machine := by
  unfold start
  rw [h]

theorem environment_foldl_print (lines : List String) (m : Machine) :
    (lines.foldl Machine.print m).environment = m.environment := by
  induction lines generalizing m with
  | nil => rfl
  | cons line rest ih => exact ih (m.print line)

/-- Dumps bind nothing. -/
theorem environment_start (statements : List Stmt) (s : Session) :
    (s.start statements).environment = s.machine.environment := by
  unfold start
  split
  · exact environment_foldl_print _ s.machine
  · rfl

/-- Proper statements have dumps. -/
theorem dump_of_allProper {statements : List Stmt} (h : Stmt.AllProper statements) (s : Session) :
    s.dump statements = (.ok (), { s with machine := s.start statements }) := by
  obtain ⟨lines, hLines⟩ := Stmt.AllProper.dumpAll statements h
  obtain ⟨reporter, machine, debug⟩ := s
  unfold dump start
  rw [hLines]
  cases debug with
  | true => rfl
  | false => rfl

/-- The session that runs the statements of a source. -/
def ready (source : String) (s : Session) : Session :=
  { s.afterReading source with machine := s.start (statementsIn source) }

/-- The session once its statements have ended: a fault of theirs is written. -/
def settle (s : Session) : Ending Unit → Session
  | .error (.fault f) machine =>
    { s with machine, reporter := s.reporter.fault f.token f.message }
  | .ok _ machine => { s with machine }
  | .error _ machine => { s with machine }

/-- What is written for an ending: the fault, if there is one. -/
def faultsOf : Ending Unit → List Notice
  | .error (.fault f) _ => [f.notice]
  | _ => []

/-- An ending has one fault at most. -/
theorem exists_faultsOf (ending : Ending Unit) :
    ∃ fault? : Option Fault, faultsOf ending = fault?.toList.map Fault.notice := by
  unfold faultsOf
  split
  · exact ⟨some _, rfl⟩
  · exact ⟨none, rfl⟩

theorem settle_eq (s : Session) (ending : Ending Unit) :
    s.settle ending = { s with
      machine := ending.machine
      reporter := s.reporter.faulted (faultsOf ending) } := by
  have hSame : ∀ m : Machine, ({ s with machine := m } : Session) =
      { s with machine := m, reporter := s.reporter.faulted [] } := by
    intro m
    rw [Reporter.faulted_nil]
  cases ending with
  | ok done m => exact hSame m
  | error halt m =>
    cases halt with
    | fault f =>
      rw [settle, Reporter.fault_eq]
      rfl
    | defect d => exact hSame m
    | unfinished => exact hSame m

/-- What comes out of statements that ended: a fault is no error, all else that halts is one. -/
def outcomeOf : Ending Unit → Except Escape Unit
  | .ok () _ => .ok ()
  | .error (.fault _) _ => .ok ()
  | .error (.defect d) _ => .error (.ofDefect d)
  | .error .unfinished _ => .error .unfinished

/-- Running statements is all in how they end on the machine. -/
theorem interpret_eq (rounds : Nat) (statements : List Stmt) (s : Session) :
    s.interpret rounds statements =
      (outcomeOf (execAll rounds statements s.machine),
        s.settle (execAll rounds statements s.machine)) := by
  unfold interpret
  cases execAll rounds statements s.machine with
  | ok done m => rfl
  | error halt m => cases halt <;> rfl

/-- Endings that are alike come to the same, whatever the fault is about. -/
theorem outcomeOf_of_like {operator name : Token → Token → Prop}
    {alike : Machine → Machine → Prop} {ending other : Ending Unit}
    (h : Ending.Like operator name alike ending other) : outcomeOf other = outcomeOf ending := by
  cases h with
  | ok hMachines => rfl
  | error hHalts hMachines =>
    cases hHalts with
    | operator _ _ => rfl
    | name _ => rfl
    | defect d => rfl
    | unfinished => rfl

theorem machine_settle (s : Session) (ending : Ending Unit) :
    (s.settle ending).machine = ending.machine := by
  rw [settle_eq]

theorem reporter_settle (s : Session) (ending : Ending Unit) :
    (s.settle ending).reporter = s.reporter.faulted (faultsOf ending) := by
  rw [settle_eq]

/--
The session that running a source comes to. Either there is or was something
wrong with a source, and this one is only read, or its statements run to their end.
-/
inductive RunsTo (source : String) (s : Session) : Session → Prop where
  | blocked (hFlag : (s.afterReading source).reporter.hadSyntaxError = true) :
      RunsTo source s (s.afterReading source)
  | ended {ending : Ending Unit}
      (hFlag : (s.afterReading source).reporter.hadSyntaxError = false)
      (hEnds : Stmt.AllEnd (statementsIn source) (s.ready source).machine ending) :
      RunsTo source s ((s.ready source).settle ending)

theorem run_of_flag (hFlag : (s.afterReading source).reporter.hadSyntaxError = true) :
    s.run rounds source = (.ok (statementsIn source), s.afterReading source) := by
  have hRead := read_eq source s
  have hFlag' : (s.read source).2.reporter.hadSyntaxError = true := by
    rw [hRead]
    exact hFlag
  rw [run_of_hadSyntaxError hFlag', hRead]

/-- What is left of a run once its source was read and nothing is or was wrong. -/
theorem run_of_no_flag (hFlag : (s.afterReading source).reporter.hadSyntaxError = false) :
    s.run rounds source =
      match (s.ready source).interpret rounds (statementsIn source) with
      | (.error e, s) => (.error e, s)
      | (.ok (), s) => (.ok (statementsIn source), s) := by
  have hDump : (s.afterReading source).dump (statementsIn source) = (.ok (), s.ready source) :=
    dump_of_allProper (Parse.allProper_program _) _
  unfold run
  rw [read_eq]
  dsimp only
  rw [hFlag, hDump]
  rfl

/-- The same by how the statements end on the machine that is ready for them. -/
theorem run_eq_settle (hFlag : (s.afterReading source).reporter.hadSyntaxError = false) :
    s.run rounds source =
      ((outcomeOf (execAll rounds (statementsIn source) (s.ready source).machine)).map fun _ =>
          statementsIn source,
        (s.ready source).settle
          (execAll rounds (statementsIn source) (s.ready source).machine)) := by
  rw [run_of_no_flag hFlag, interpret_eq]
  generalize execAll rounds (statementsIn source) (s.ready source).machine = ending
  cases outcomeOf ending with
  | error e => rfl
  | ok done => rfl

/-- Nothing is wrong with the tree of a source, so its statements go through or end with a fault. -/
theorem ending_cases {m : Machine} {ending : Ending Unit}
    (h : Stmt.AllEnd (statementsIn source) m ending) :
    (∃ n, ending = .ok () n) ∨ ∃ f n, ending = .error (.fault f) n := by
  obtain ⟨hFinished, rounds, hRun⟩ := h
  have hSound := sound_execAll rounds (statementsIn source) (Parse.allProper_program _)
  cases ending with
  | ok done n => exact .inl ⟨n, rfl⟩
  | error halt n =>
    have hAllowed : halt.Allowed := hSound m n halt hRun
    cases halt with
    | fault f => exact .inr ⟨f, n, rfl⟩
    | defect d => exact hAllowed.elim
    | unfinished => exact hFinished.elim

theorem interpret_of_finished {ending : Ending Unit} (hFinished : ending.Finished)
    (hRun : execAll rounds (statementsIn source) s.machine = ending) :
    s.interpret rounds (statementsIn source) = (.ok (), s.settle ending) := by
  unfold interpret
  rw [hRun]
  rcases ending_cases ⟨hFinished, rounds, hRun⟩ with ⟨n, rfl⟩ | ⟨f, n, rfl⟩
  · rfl
  · rfl

theorem interpret_of_not_finished {statements : List Stmt}
    (h : ¬Ending.Finished (execAll rounds statements s.machine)) :
    ∃ unfinished, s.interpret rounds statements = (.error .unfinished, unfinished) := by
  unfold interpret
  cases hRun : execAll rounds statements s.machine with
  | ok done m =>
    rw [hRun] at h
    exact absurd trivial h
  | error halt m =>
    rw [hRun] at h
    cases halt with
    | fault f => exact absurd trivial h
    | defect d => exact absurd trivial h
    | unfinished => exact ⟨{ s with machine := m }, rfl⟩

/-- A run that ends raises nothing and comes to what it has to. -/
theorem run_ends {outcome : Except Escape (List Stmt)} (h : s.run rounds source = (outcome, s'))
    (hEnds : outcome ≠ .error .unfinished) :
    outcome = .ok (statementsIn source) ∧ s.RunsTo source s' := by
  cases hFlag : (s.afterReading source).reporter.hadSyntaxError with
  | true =>
    cases (run_of_flag hFlag).symm.trans h
    exact ⟨rfl, .blocked hFlag⟩
  | false =>
    rw [run_of_no_flag hFlag] at h
    by_cases hFinished :
        Ending.Finished (execAll rounds (statementsIn source) (s.ready source).machine)
    · rw [interpret_of_finished hFinished rfl] at h
      cases h
      exact ⟨rfl, .ended hFlag ⟨hFinished, rounds, rfl⟩⟩
    · obtain ⟨unfinished, hUnfinished⟩ := interpret_of_not_finished hFinished
      rw [hUnfinished] at h
      cases h
      exact absurd rfl hEnds

/-- With enough rounds the run of a source ends, and the session is this one. -/
def Runs (source : String) (s s' : Session) : Prop :=
  ∃ rounds statements, s.run rounds source = (.ok statements, s')

theorem runs_iff_runsTo : s.Runs source s' ↔ s.RunsTo source s' := by
  constructor
  · rintro ⟨rounds, statements, hRun⟩
    have hEnds : (Except.ok statements : Except Escape (List Stmt)) ≠ .error .unfinished := by
      rintro ⟨⟩
    exact (run_ends hRun hEnds).2
  · intro h
    cases h with
    | blocked hFlag => exact ⟨0, statementsIn source, run_of_flag hFlag⟩
    | ended hFlag hEnds =>
      obtain ⟨hFinished, rounds, hRun⟩ := hEnds
      refine ⟨rounds, statementsIn source, ?_⟩
      rw [run_of_no_flag hFlag, interpret_of_finished hFinished hRun]

end Session

end Scriptlet
