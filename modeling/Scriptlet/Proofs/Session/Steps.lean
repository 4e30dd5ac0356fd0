import Scriptlet.Proofs.Run.ScopeDiscipline
import Scriptlet.Proofs.Session.Sources

/-!
# Scriptlet — any sequence of steps

A session is asked for one thing after the other: to run a source, to run a
file, to forget earlier complaints, to dump trees or not. Whatever it was asked
for before, the next step changes what it may change and nothing else, the
notices are only ever added to, and the machine is at its global scope again.

## Results

* `Session.Step`            — what can be asked for; `Step.Takes` says what comes of it.
* `Session.Steps`           — one step after the other.
* `Session.Accounted`       — what a step may change.
* `runsTo_written`          — what running a source writes, and the flags behind it.
* `accounted_of_takes`      — one step from the global scope.
* `steps_account`           — any step behind any others.
-/

namespace Scriptlet

-- ---------------------------------------------------------------------------
-- Steps
-- ---------------------------------------------------------------------------

/-- Whether a notice is a diagnostic of a category. -/
def Notice.isOf (category : String) : Notice → Bool
  | diagnostic d => d.category = category
  | failure _ _ => false
  | plain _ => false

namespace Session

/-- What a session can be asked for. Files may change, so running one names its folder. -/
inductive Step where
  | run (source : String)
  | runFile (folder : Folder) (path : String)
  | reset
  | debug (on : Bool)

/-- The source that a step runs, if it runs one and can read it. -/
def Step.source? : Step → Option String
  | run source => some source
  | runFile folder path => (readSource folder path).toOption
  | reset => none
  | debug _ => none

/-- A step: whether it raises something, and the session behind it. -/
def Step.perform (rounds : Nat) : Step → Session → Except Escape Unit × Session
  | run source, s =>
    let (outcome, s) := s.run rounds source
    (outcome.map fun _ => (), s)
  | runFile folder path, s =>
    let (outcome, s) := s.runFile rounds folder path
    (outcome.map fun _ => (), s)
  | reset, s => (.ok (), s.reset)
  | debug on, s => (.ok (), { s with debug := on })

/-- With enough rounds a step ends, and like this. -/
def Step.Takes (step : Step) (s : Session) (outcome : Except Escape Unit) (s' : Session) : Prop :=
  ∃ rounds, step.perform rounds s = (outcome, s') ∧ outcome ≠ .error .unfinished

/-- One step after the other, each of which ends. -/
inductive Steps (start : Session) : List Step → Session → Prop where
  | none : Steps start [] start
  | next {steps : List Step} {step : Step} {s s' : Session} {outcome : Except Escape Unit}
      (hEarlier : Steps start steps s) (hStep : step.Takes s outcome s') :
      Steps start (steps ++ [step]) s'

/-- What a step may change. -/
structure Accounted (step : Step) (before : Session) (outcome : Except Escape Unit)
    (after : Session) : Prop where
  /-- Only a source that could be read runs, and only if nothing is complained about. -/
  gated : after.machine ≠ before.machine ∨
      after.reporter.hadRuntimeError ≠ before.reporter.hadRuntimeError →
    step.source?.isSome = true ∧ after.reporter.hadSyntaxError = false
  /-- What is written is added, and the flags tell what was written. -/
  log : ∃ written : List Notice,
    after.reporter.notices = before.reporter.notices ++ written.toArray ∧
    (step.source? = none → written = []) ∧
    (∀ source, step.source? = some source →
      (after.reporter.hadSyntaxError = true ↔
        before.reporter.hadSyntaxError = true ∨ ¬Clean source) ∧
      (¬Clean source ↔ ∃ n ∈ written, n.isOf "Parse" = true) ∧
      (after.reporter.hadSyntaxError = true → ∀ n ∈ written, n.isOf "Runtime" = false)) ∧
    written.countP (·.isOf "Runtime") ≤ 1 ∧
    (after.reporter.hadRuntimeError = true ↔
      before.reporter.hadRuntimeError = true ∨ ∃ n ∈ written, n.isOf "Runtime" = true)
  reset : step = .reset →
    after = { before with reporter := { before.reporter with hadSyntaxError := false } }
  debug : ∀ on, step = .debug on → after = { before with debug := on }
  /-- A step that raises something is one whose source could not be read. -/
  raised : ∀ e, outcome = .error e → step.source? = none ∧ after = before
  atGlobals : after.machine.environment.atGlobals = true

-- ---------------------------------------------------------------------------
-- Running a source
-- ---------------------------------------------------------------------------

variable {source : String} {s s' : Session}

/-- At the global scope a run stays there. -/
theorem atGlobals_execAll (rounds : Nat) (statements : List Stmt) {m : Machine}
    (h : m.environment.atGlobals = true) :
    (Ending.machine (execAll rounds statements m)).environment.atGlobals = true := by
  have hFollows := keeps_execAll rounds statements (List.Subset.refl _) (List.Subset.refl _) m
  exact hFollows.atGlobals h

theorem atGlobals_of_runsTo (h : s.RunsTo source s')
    (hGlobals : s.machine.environment.atGlobals = true) :
    s'.machine.environment.atGlobals = true := by
  cases h with
  | blocked hFlag => exact hGlobals
  | ended hFlag hEnds =>
    obtain ⟨-, rounds, rfl⟩ := hEnds
    rw [machine_settle]
    have hStart : (s.ready source).machine.environment = s.machine.environment :=
      environment_start (statementsIn source) s
    rw [← hStart] at hGlobals
    exact atGlobals_execAll rounds (statementsIn source) hGlobals

/-- Complaints are of their own category. -/
theorem isOf_of_mem_complaintsAbout {n : Notice} (h : n ∈ complaintsAbout source) :
    n.isOf "Parse" = true ∧ n.isOf "Runtime" = false := by
  rcases List.mem_append.mp h with hRemark | hReport
  · obtain ⟨m, -, rfl⟩ := List.mem_map.mp hRemark
    exact ⟨rfl, rfl⟩
  · obtain ⟨m, -, rfl⟩ := List.mem_map.mp hReport
    exact ⟨rfl, rfl⟩

/-- Faults are of theirs, and there is one at most. -/
theorem isOf_of_mem_faultsOf {ending : Ending Unit} {n : Notice} (h : n ∈ faultsOf ending) :
    n.isOf "Runtime" = true ∧ n.isOf "Parse" = false := by
  unfold faultsOf at h
  split at h
  · obtain rfl := List.mem_singleton.mp h
    exact ⟨rfl, rfl⟩
  · cases h

theorem length_faultsOf (ending : Ending Unit) : (faultsOf ending).length ≤ 1 := by
  unfold faultsOf
  split
  · exact Nat.le_refl 1
  · exact Nat.zero_le 1

/--
What running a source writes, the complaints about it and the faults of its
statements, and how the two flags stand behind that.
-/
theorem runsTo_written (h : s.RunsTo source s') :
    ∃ faults : List Notice,
      s'.reporter.notices = s.reporter.notices ++ (complaintsAbout source ++ faults).toArray ∧
      faults.length ≤ 1 ∧ (∀ n ∈ faults, n.isOf "Runtime" = true ∧ n.isOf "Parse" = false) ∧
      s'.reporter.hadSyntaxError =
        (s.reporter.hadSyntaxError || !(complaintsAbout source).isEmpty) ∧
      s'.reporter.hadRuntimeError = (s.reporter.hadRuntimeError || !faults.isEmpty) ∧
      (s'.reporter.hadSyntaxError = true → faults = [] ∧ s'.machine = s.machine) := by
  cases h with
  | blocked hFlag =>
    refine ⟨[], ?_, Nat.zero_le 1, by simp, rfl, ?_, fun _ => ⟨rfl, rfl⟩⟩
    · rw [List.append_nil]
      rfl
    · exact (Bool.or_false _).symm
  | @ended ending hFlag hEnds =>
    refine ⟨faultsOf ending, ?_, length_faultsOf ending, fun n => isOf_of_mem_faultsOf, ?_, ?_, ?_⟩
    · have hAdded : (complaintsAbout source ++ faultsOf ending).toArray =
          (complaintsAbout source).toArray ++ (faultsOf ending).toArray := by simp
      rw [reporter_settle, hAdded, ← Array.append_assoc]
      rfl
    · rw [reporter_settle]
      rfl
    · rw [reporter_settle]
      rfl
    · intro hSyntax
      rw [reporter_settle] at hSyntax
      exact absurd (hFlag.symm.trans hSyntax) (by decide)

-- ---------------------------------------------------------------------------
-- One step
-- ---------------------------------------------------------------------------

variable {step : Step} {outcome : Except Escape Unit}

/-- Running a file whose source can be read is running that source. -/
theorem runFile_of_ok {folder : Folder} {path : String} (rounds : Nat)
    (h : readSource folder path = .ok source) :
    s.runFile rounds folder path = s.run rounds source := by
  unfold runFile
  rw [h]

theorem runsTo_of_run {rounds : Nat} {result : Except Escape (List Stmt)}
    (hRun : s.run rounds source = (result, s')) (hOutcome : result.map (fun _ => ()) = outcome)
    (hEnds : outcome ≠ .error .unfinished) : outcome = .ok () ∧ s.RunsTo source s' := by
  subst hOutcome
  have hEnds' : result ≠ .error .unfinished := by
    rintro rfl
    exact hEnds rfl
  obtain ⟨rfl, hRunsTo⟩ := run_ends hRun hEnds'
  exact ⟨rfl, hRunsTo⟩

/-- All that a step can do. -/
theorem takes_cases (h : step.Takes s outcome s') :
    (∃ source, step.source? = some source ∧ outcome = .ok () ∧ s.RunsTo source s') ∨
      (∃ folder path e, step = .runFile folder path ∧ step.source? = none ∧
        outcome = .error e ∧ s' = s) ∨
      (step = .reset ∧ outcome = .ok () ∧ s' = s.reset) ∨
      ∃ on, step = .debug on ∧ outcome = .ok () ∧ s' = { s with debug := on } := by
  obtain ⟨rounds, hPerform, hEnds⟩ := h
  cases step with
  | run source =>
    obtain ⟨hOutcome, rfl⟩ := Prod.mk.inj hPerform
    obtain ⟨hOk, hRunsTo⟩ := runsTo_of_run rfl hOutcome hEnds
    exact .inl ⟨source, rfl, hOk, hRunsTo⟩
  | runFile folder path =>
    have hRun : ((s.runFile rounds folder path).1.map fun _ => (),
      (s.runFile rounds folder path).2) = (outcome, s') := hPerform
    cases hSource : readSource folder path with
    | error e =>
      rw [runFile_of_error hSource] at hRun
      obtain ⟨hOutcome, rfl⟩ := Prod.mk.inj hRun
      have hNone : (readSource folder path).toOption = none := by
        rw [hSource]
        rfl
      exact .inr (.inl ⟨folder, path, e, rfl, hNone, hOutcome.symm, rfl⟩)
    | ok source =>
      rw [runFile_of_ok rounds hSource] at hRun
      obtain ⟨hOutcome, rfl⟩ := Prod.mk.inj hRun
      have hSome : (readSource folder path).toOption = some source := by
        rw [hSource]
        rfl
      obtain ⟨hOk, hRunsTo⟩ := runsTo_of_run rfl hOutcome hEnds
      exact .inl ⟨source, hSome, hOk, hRunsTo⟩
  | reset =>
    obtain ⟨hOutcome, rfl⟩ := Prod.mk.inj hPerform
    exact .inr (.inr (.inl ⟨rfl, hOutcome.symm, rfl⟩))
  | debug on =>
    obtain ⟨hOutcome, rfl⟩ := Prod.mk.inj hPerform
    exact .inr (.inr (.inr ⟨on, rfl, hOutcome.symm, rfl⟩))

/-- Where running a source comes to is where asking for it does. -/
theorem takes_of_runsTo (h : s.RunsTo source s') : (Step.run source).Takes s (.ok ()) s' := by
  obtain ⟨rounds, statements, hRun⟩ := runs_iff_runsTo.mpr h
  refine ⟨rounds, ?_, by simp⟩
  show ((s.run rounds source).1.map fun _ => (), (s.run rounds source).2) = (.ok (), s')
  rw [hRun]
  rfl

section

variable {faults : List Notice}
  (hFaults : ∀ n ∈ faults, n.isOf "Runtime" = true ∧ n.isOf "Parse" = false)

include hFaults

/-- The diagnostics of runs among the notices are the faults. -/
theorem exists_isOf_runtime_iff :
    (∃ n ∈ complaintsAbout source ++ faults, n.isOf "Runtime" = true) ↔ faults ≠ [] := by
  constructor
  · rintro ⟨n, hn, hRuntime⟩ rfl
    rw [List.append_nil] at hn
    rw [(isOf_of_mem_complaintsAbout hn).2] at hRuntime
    cases hRuntime
  · intro hSome
    obtain ⟨n, hn⟩ := List.exists_mem_of_ne_nil faults hSome
    exact ⟨n, List.mem_append_right _ hn, (hFaults n hn).1⟩

/-- The diagnostics of source text among them are the complaints. -/
theorem exists_isOf_parse_iff :
    (∃ n ∈ complaintsAbout source ++ faults, n.isOf "Parse" = true) ↔ ¬Clean source := by
  rw [clean_iff]
  constructor
  · rintro ⟨n, hn, hParse⟩ hNone
    rw [hNone, List.nil_append] at hn
    rw [(hFaults n hn).2] at hParse
    cases hParse
  · intro hSome
    obtain ⟨n, hn⟩ := List.exists_mem_of_ne_nil _ hSome
    exact ⟨n, List.mem_append_left _ hn, (isOf_of_mem_complaintsAbout hn).1⟩

end

theorem countP_written_le {faults : List Notice} (h : faults.length ≤ 1) :
    (complaintsAbout source ++ faults).countP (·.isOf "Runtime") ≤ 1 := by
  have hComplaints : (complaintsAbout source).countP (·.isOf "Runtime") = 0 :=
    List.countP_eq_zero.mpr fun n hn => by simp [(isOf_of_mem_complaintsAbout hn).2]
  have hLength := List.countP_le_length (p := (·.isOf "Runtime")) (l := faults)
  rw [List.countP_append, hComplaints]
  omega

/-- A step that runs a source is accounted for by what the run wrote. -/
theorem accounted_of_runsTo (hSource : step.source? = some source) (h : s.RunsTo source s')
    (hGlobals : s.machine.environment.atGlobals = true) : Accounted step s (.ok ()) s' := by
  obtain ⟨faults, hNotices, hOne, hFaults, hSyntax, hRuntime, hGate⟩ := runsTo_written h
  refine ⟨?_, ⟨complaintsAbout source ++ faults, hNotices, ?_, ?_, countP_written_le hOne, ?_⟩,
    ?_, ?_, ?_, atGlobals_of_runsTo h hGlobals⟩
  · intro hChanged
    have hRead : step.source?.isSome = true := by
      rw [hSource]
      rfl
    refine ⟨hRead, ?_⟩
    cases hFlag : s'.reporter.hadSyntaxError with
    | false => rfl
    | true =>
      obtain ⟨rfl, hMachine⟩ := hGate hFlag
      rcases hChanged with hChanged | hChanged
      · exact absurd hMachine hChanged
      · exact absurd (hRuntime.trans (Bool.or_false _)) hChanged
  · intro hNone
    rw [hSource] at hNone
    cases hNone
  · intro other hOther
    cases hSource.symm.trans hOther
    refine ⟨?_, (exists_isOf_parse_iff hFaults).symm, ?_⟩
    · rw [hSyntax, clean_iff]
      simp
    · intro hFlag n hn
      obtain ⟨rfl, -⟩ := hGate hFlag
      rw [List.append_nil] at hn
      exact (isOf_of_mem_complaintsAbout hn).2
  · rw [hRuntime, exists_isOf_runtime_iff hFaults]
    simp
  · rintro rfl
    cases hSource
  · rintro on rfl
    cases hSource
  · intro e hError
    cases hError

/-- A step that runs no source and leaves the machine and what was written alone. -/
theorem accounted_of_still (hSource : step.source? = none) (hMachine : s'.machine = s.machine)
    (hNotices : s'.reporter.notices = s.reporter.notices)
    (hRuntime : s'.reporter.hadRuntimeError = s.reporter.hadRuntimeError)
    (hReset : step = .reset →
      s' = { s with reporter := { s.reporter with hadSyntaxError := false } })
    (hDebug : ∀ on, step = .debug on → s' = { s with debug := on })
    (hRaised : ∀ e, outcome = .error e → s' = s)
    (hGlobals : s.machine.environment.atGlobals = true) : Accounted step s outcome s' where
  gated hChanged := by
    rcases hChanged with hChanged | hChanged
    · exact absurd hMachine hChanged
    · exact absurd hRuntime hChanged
  log := by
    refine ⟨[], by simpa using hNotices, fun _ => rfl, ?_, Nat.zero_le 1, ?_⟩
    · intro source hSome
      rw [hSource] at hSome
      cases hSome
    · rw [hRuntime]
      simp
  reset := hReset
  debug := hDebug
  raised e hError := ⟨hSource, hRaised e hError⟩
  atGlobals := by
    rw [hMachine]
    exact hGlobals

/-- Whatever a step is, from the global scope it is accounted for. -/
theorem accounted_of_takes (h : step.Takes s outcome s')
    (hGlobals : s.machine.environment.atGlobals = true) : Accounted step s outcome s' := by
  rcases takes_cases h with ⟨source, hSource, rfl, hRunsTo⟩ |
    ⟨folder, path, e, rfl, hSource, rfl, rfl⟩ | ⟨rfl, rfl, rfl⟩ | ⟨on, rfl, rfl, rfl⟩
  · exact accounted_of_runsTo hSource hRunsTo hGlobals
  · exact accounted_of_still hSource rfl rfl rfl (by rintro ⟨⟩) (by rintro _ ⟨⟩)
      (fun _ _ => rfl) hGlobals
  · exact accounted_of_still rfl rfl rfl rfl (fun _ => rfl) (by rintro _ ⟨⟩) (by rintro _ ⟨⟩)
      hGlobals
  · exact accounted_of_still rfl rfl rfl rfl (by rintro ⟨⟩) (by rintro _ ⟨⟩; rfl)
      (by rintro _ ⟨⟩) hGlobals

-- ---------------------------------------------------------------------------
-- Steps
-- ---------------------------------------------------------------------------

/-- By induction on the steps: each one leaves the machine at its global scope for the next. -/
theorem atGlobals_of_steps {start : Session} {steps : List Step}
    (hStart : start.machine.environment.atGlobals = true) (h : Steps start steps s) :
    s.machine.environment.atGlobals = true := by
  induction h with
  | none => exact hStart
  | next hEarlier hStep ih => exact (accounted_of_takes hStep ih).atGlobals

/-- What was written stays, and so does the flag that something broke off. -/
theorem log_of_steps {start : Session} {steps : List Step}
    (hStart : start.machine.environment.atGlobals = true) (h : Steps start steps s) :
    (∃ written : List Notice, s.reporter.notices = start.reporter.notices ++ written.toArray) ∧
      (start.reporter.hadRuntimeError = true → s.reporter.hadRuntimeError = true) := by
  induction h with
  | none => exact ⟨⟨[], by simp⟩, id⟩
  | next hEarlier hStep ih =>
    obtain ⟨⟨earlier, hNotices⟩, hFlag⟩ := ih
    obtain ⟨written, hWritten, -, -, -, hRuntime⟩ :=
      (accounted_of_takes hStep (atGlobals_of_steps hStart hEarlier)).log
    refine ⟨⟨earlier ++ written, ?_⟩, fun hBefore => hRuntime.mpr (.inl (hFlag hBefore))⟩
    rw [hWritten, hNotices]
    simp

/--
Behind any steps from the global scope, whatever they were, the next step is
accounted for, and nothing that was written from the first step on is lost.
-/
theorem steps_account {start : Session} {earlier : List Step}
    (hStart : start.machine.environment.atGlobals = true) (hEarlier : Steps start earlier s)
    (hStep : step.Takes s outcome s') :
    Accounted step s outcome s' ∧
      (∃ written : List Notice,
        s'.reporter.notices = start.reporter.notices ++ written.toArray) ∧
      (start.reporter.hadRuntimeError = true → s'.reporter.hadRuntimeError = true) := by
  have hGlobals := atGlobals_of_steps hStart hEarlier
  exact ⟨accounted_of_takes hStep hGlobals, log_of_steps hStart (.next hEarlier hStep)⟩

/-- A session in which `x;` was run. -/
def faultySession : Session where
  reporter :=
    { hadRuntimeError := true
      notices := #[.diagnostic { line := 1, category := "Runtime", place := "at 'x'",
                                 message := "Undefined variable 'x'." }] }

/-- A fault does not keep the next source from running, but a complaint does. -/
theorem steps_account_sticky :
    let broken := faultySession.afterReading "print"
    let after := broken.afterReading "print true;"
    Steps {} [.run "x;", .run "print"] broken ∧
      Accounted (.run "print true;") broken (.ok ()) after ∧
      broken.reporter.notices.size = 2 ∧ after.machine.printed.isEmpty = true := by
  intro broken after
  have hFaulty : (Step.run "x;").Takes {} (.ok ()) faultySession :=
    ⟨0, by with_unfolding_all rfl, by simp⟩
  have hBroken : faultySession.RunsTo "print" broken := .blocked (by decide +kernel)
  have hAfter : broken.RunsTo "print true;" after := .blocked (by decide +kernel)
  have hEarlier : Steps {} [.run "x;", .run "print"] broken :=
    .next (.next .none hFaulty) (takes_of_runsTo hBroken)
  obtain ⟨hAccounted, -, -⟩ := steps_account rfl hEarlier (takes_of_runsTo hAfter)
  exact ⟨hEarlier, hAccounted, by decide +kernel, by decide +kernel⟩

end Session

end Scriptlet
