import Scriptlet.Proofs.Session.Steps
import Scriptlet.Session.Prompt

/-!
# Scriptlet — lines at the prompt

Every line at the prompt is a source of its own. What is wrong with one is
forgotten with it: the line does not run, and nothing is left of it but what was
written about it. So the lines around it do what they would do without it. A line
that runs into a fault is another matter, for it stops where it is, and what it
did up to there stays.

## Results

* `Prompt.Takes`            — what a line comes to; `Exchange` keeps what is seen of it.
* `Prompt.Conversation`     — one line after the other.
* `Session.runsTo_unique`   — a run comes to one session at most.
* `exists_written_of_takes` — what a line writes, whatever was written before it.
* `conversation_unique`     — the same lines come to the same.
* `bad_lines_leave_nothing` — lines with the bad ones and without them.
-/

namespace Scriptlet

-- ---------------------------------------------------------------------------
-- Runs and what was written before them
-- ---------------------------------------------------------------------------

namespace Session

variable {source : String} {s s' t : Session}

/-- Running a source comes to one session at most. -/
theorem runsTo_unique (h : s.RunsTo source s') (h' : s.RunsTo source t) : s' = t := by
  cases h with
  | blocked hFlag =>
    cases h' with
    | blocked _ => rfl
    | ended hOpen _ => exact absurd (hFlag.symm.trans hOpen) (by decide)
  | ended hOpen hEnds =>
    cases h' with
    | blocked hFlag => exact absurd (hFlag.symm.trans hOpen) (by decide)
    | ended _ hEnds' => rw [allEnd_unique hEnds hEnds']

/-- Running a source only adds to the notices, and comes to the same whatever they were. -/
theorem exists_written_of_runsTo (h : s.RunsTo source s') :
    ∃ written : List Notice, s'.reporter.notices = s.reporter.notices ++ written.toArray ∧
      ∀ notices, (s.withNotices notices).RunsTo source
        (s'.withNotices (notices ++ written.toArray)) := by
  cases h with
  | blocked hFlag => exact ⟨complaintsAbout source, rfl, fun notices => .blocked hFlag⟩
  | @ended ending hFlag hEnds =>
    have hSettle : ∀ r : Session, (r.ready source).settle ending = { r.ready source with
        machine := ending.machine
        reporter := (r.reporter.complained (complaintsAbout source)).faulted
          (faultsOf ending) } := fun r => settle_eq (r.ready source) ending
    refine ⟨complaintsAbout source ++ faultsOf ending, ?_, ?_⟩
    · rw [hSettle]
      exact s.reporter.notices_written _ _
    · intro notices
      have hRuns : (s.withNotices notices).RunsTo source
          (((s.withNotices notices).ready source).settle ending) := .ended hFlag hEnds
      have hSame : ((s.withNotices notices).ready source).settle ending =
          ((s.ready source).settle ending).withNotices
            (notices ++ (complaintsAbout source ++ faultsOf ending).toArray) := by
        rw [hSettle, hSettle]
        simp [withNotices, ready, afterReading, start, Reporter.faulted, Reporter.complained]
      rw [hSame] at hRuns
      exact hRuns

/-- What is written to a session that a source was read in are the complaints. -/
theorem written_of_blocked {written : List Notice}
    (h : (s.afterReading source).reporter.notices = s.reporter.notices ++ written.toArray) :
    written = complaintsAbout source := by
  have hLists := congrArg Array.toList h
  simpa [afterReading, Reporter.complained] using hLists.symm

/-- What is written to one whose statements ended is the fault, as there are no complaints. -/
theorem written_of_ended {ending : Ending Unit} {written : List Notice}
    (hOpen : (s.afterReading source).reporter.hadSyntaxError = false)
    (h : ((s.ready source).settle ending).reporter.notices =
      s.reporter.notices ++ written.toArray) : written = faultsOf ending := by
  have hEmpty : (s.reporter.hadSyntaxError || !(complaintsAbout source).isEmpty) = false := hOpen
  have hNone : complaintsAbout source = [] := by simpa using (Bool.or_eq_false_iff.mp hEmpty).2
  rw [reporter_settle] at h
  have hLists := congrArg Array.toList h
  simpa [Reporter.faulted, ready, afterReading, Reporter.complained, hNone] using hLists.symm

/-- A source with complaints leaves nothing but these, once they are forgotten. -/
theorem reset_of_runsTo_of_parse {written : List Notice} (h : s.RunsTo source s')
    (hFlag : s.reporter.hadSyntaxError = false)
    (hWritten : s'.reporter.notices = s.reporter.notices ++ written.toArray)
    (hBad : ∃ n ∈ written, n.isOf "Parse" = true) :
    s'.reset = s.withNotices s'.reporter.notices := by
  cases h with
  | blocked _ =>
    simp [reset, Reporter.reset, afterReading, withNotices, Reporter.complained, hFlag]
  | @ended ending hOpen hEnds =>
    obtain ⟨n, hn, hParse⟩ := hBad
    rw [written_of_ended hOpen hWritten] at hn
    exact absurd (hParse.symm.trans (isOf_of_mem_faultsOf hn).2) (by decide)

end Session

-- ---------------------------------------------------------------------------
-- Statements that halt
-- ---------------------------------------------------------------------------

theorem Environment.globals_of_atGlobals {env : Environment} (h : env.atGlobals = true) :
    env.globals = env.current := by
  have hNone : env.enclosing = [] := List.isEmpty_iff.mp h
  unfold globals
  rw [hNone]
  rfl

/-- A statement that halts at the global scope has changed what it assigns and declares at most. -/
theorem kept_of_ends {stmt : Stmt} {k n : Machine} {halt : Halt}
    (h : stmt.Ends k (.error halt n)) (hGlobals : k.environment.atGlobals = true) :
    (∃ lines : List String, n.printed = k.printed ++ lines.toArray) ∧
      ∀ name ∉ stmt.assigned, name ∉ stmt.declared →
        n.environment.globals.get? name = k.environment.globals.get? name := by
  obtain ⟨-, rounds, hRun⟩ := h
  have hMachine : Ending.machine (exec rounds stmt k) = n := congrArg Ending.machine hRun
  have hPrinted := printed_exec rounds stmt k
  have hFollows := keeps_exec rounds stmt (List.Subset.refl _) (List.Subset.refl _) k
  rw [hMachine] at hPrinted hFollows
  refine ⟨hPrinted, ?_⟩
  intro name hAssigned hDeclared
  have hAfter := hFollows.atGlobals hGlobals
  rw [Environment.globals_of_atGlobals hGlobals, Environment.globals_of_atGlobals hAfter]
  exact hFollows.currentValues name hAssigned hDeclared

namespace Prompt

-- ---------------------------------------------------------------------------
-- Lines
-- ---------------------------------------------------------------------------

/-- With enough rounds a line comes to an end, and to this one. -/
def Takes (line : String) (s : Session) (outcome : Except Escape Reply) (s' : Session) : Prop :=
  ∃ rounds, enter rounds line s = (outcome, s') ∧ outcome ≠ .error .unfinished

/-- What is seen of a line at the prompt: what came of it, and what was written about it. -/
structure Exchange where
  line : String
  outcome : Except Escape Reply
  written : List Notice

/-- What is seen of a line that led from one session to another. -/
def Exchange.between (line : String) (outcome : Except Escape Reply) (s s' : Session) :
    Exchange where
  line := line
  outcome := outcome
  written := s'.reporter.notices.toList.drop s.reporter.notices.size

/-- Whether the source text of a line was complained about. -/
def Exchange.bad (e : Exchange) : Bool := e.written.any (·.isOf "Parse")

/-- The exchanges about lines that nothing is wrong with. -/
def good (exchanges : List Exchange) : List Exchange := exchanges.filter (!·.bad)

theorem good_append_of_bad {earlier : List Exchange} {e : Exchange} (h : e.bad = true) :
    good (earlier ++ [e]) = good earlier := by
  simp [good, h]

theorem good_append_of_not_bad {earlier : List Exchange} {e : Exchange} (h : e.bad = false) :
    good (earlier ++ [e]) = good earlier ++ [e] := by
  simp [good, h]

/-- One line after the other, each of which comes to an end. -/
inductive Conversation (start : Session) : List Exchange → Session → Prop where
  | none : Conversation start [] start
  | next {earlier : List Exchange} {line : String} {outcome : Except Escape Reply}
      {s s' : Session} (hEarlier : Conversation start earlier s)
      (hTakes : Takes line s outcome s') :
      Conversation start (earlier ++ [.between line outcome s s']) s'

variable {line : String} {s s' t : Session} {outcome other : Except Escape Reply}

/-- A line that leaves the session alone, however many rounds it is given. -/
theorem takes_iff_of_enter {r : Reply} (h : ∀ rounds, enter rounds line s = (.ok r, s)) :
    Takes line s outcome s' ↔ outcome = .ok r ∧ s' = s := by
  unfold Takes
  constructor
  · rintro ⟨rounds, hEnter, -⟩
    rw [h] at hEnter
    cases hEnter
    exact ⟨rfl, rfl⟩
  · rintro ⟨rfl, rfl⟩
    exact ⟨0, h 0, by simp⟩

theorem takes_nothing_iff (hNothing : Request.ofLine line = .nothing) :
    Takes line s outcome s' ↔ outcome = .ok {} ∧ s' = s := by
  refine takes_iff_of_enter ?_
  intro rounds
  simp [enter, hNothing]

theorem takes_command_iff {c : Command} (hCommand : Request.ofLine line = .command c) :
    Takes line s outcome s' ↔ outcome = .ok (reply c) ∧ s' = s := by
  refine takes_iff_of_enter ?_
  intro rounds
  simp [enter, hCommand]

theorem enter_of_run_ok {rounds : Nat} {statements : List Stmt}
    (hSource : Request.ofLine line = .source) (hRun : s.run rounds line = (.ok statements, t)) :
    enter rounds line s = (.ok {}, t.reset) := by
  simp [enter, hSource, hRun, Reporter.guard]

theorem enter_of_run_unfinished {rounds : Nat} (hSource : Request.ofLine line = .source)
    (hRun : s.run rounds line = (.error .unfinished, t)) :
    enter rounds line s = (.error .unfinished, t.reset) := by
  simp [enter, hSource, hRun, Reporter.guard]

/-- Every other line is run, and complaints are forgotten with it. -/
theorem takes_source_iff (hSource : Request.ofLine line = .source) :
    Takes line s outcome s' ↔ outcome = .ok {} ∧ ∃ t, s.RunsTo line t ∧ s' = t.reset := by
  constructor
  · rintro ⟨rounds, hEnter, hEnds⟩
    by_cases hResult : (s.run rounds line).1 = .error .unfinished
    · have hUnfinished := enter_of_run_unfinished hSource (Prod.ext hResult rfl)
      rw [hEnter] at hUnfinished
      exact absurd (congrArg Prod.fst hUnfinished) hEnds
    · obtain ⟨hOk, hRunsTo⟩ := Session.run_ends (Prod.eta _).symm hResult
      have hDone := enter_of_run_ok hSource (Prod.ext hOk rfl)
      rw [hEnter] at hDone
      obtain ⟨rfl, rfl⟩ := Prod.mk.inj hDone
      exact ⟨rfl, _, hRunsTo, rfl⟩
  · rintro ⟨rfl, t, hRunsTo, rfl⟩
    obtain ⟨rounds, statements, hRun⟩ := Session.runs_iff_runsTo.mpr hRunsTo
    exact ⟨rounds, enter_of_run_ok hSource hRun, by simp⟩

/-- A line comes to one end at most. -/
theorem takes_unique (h : Takes line s outcome s') (h' : Takes line s other t) :
    outcome = other ∧ s' = t := by
  cases hLine : Request.ofLine line with
  | nothing =>
    obtain ⟨rfl, rfl⟩ := (takes_nothing_iff hLine).mp h
    obtain ⟨rfl, rfl⟩ := (takes_nothing_iff hLine).mp h'
    exact ⟨rfl, rfl⟩
  | command c =>
    obtain ⟨rfl, rfl⟩ := (takes_command_iff hLine).mp h
    obtain ⟨rfl, rfl⟩ := (takes_command_iff hLine).mp h'
    exact ⟨rfl, rfl⟩
  | source =>
    obtain ⟨rfl, r, hRuns, rfl⟩ := (takes_source_iff hLine).mp h
    obtain ⟨rfl, r', hRuns', rfl⟩ := (takes_source_iff hLine).mp h'
    rw [Session.runsTo_unique hRuns hRuns']
    exact ⟨rfl, rfl⟩

section

variable (hLine : ∀ c, Request.ofLine line ≠ .command c) (hTakes : Takes line s outcome s')
  (hFlag : s.reporter.hadSyntaxError = false)

include hLine hTakes

/-- A line that is no command is blank or a source. -/
theorem takes_cases :
    outcome = .ok {} ∧ (s' = s ∧ Request.ofLine line = .nothing ∨
      ∃ t, Request.ofLine line = .source ∧ s.RunsTo line t ∧ s' = t.reset) := by
  cases hRequest : Request.ofLine line with
  | nothing =>
    obtain ⟨hOk, hSame⟩ := (takes_nothing_iff hRequest).mp hTakes
    exact ⟨hOk, .inl ⟨hSame, rfl⟩⟩
  | command c => exact absurd hRequest (hLine c)
  | source =>
    obtain ⟨hOk, t, hRuns, hReset⟩ := (takes_source_iff hRequest).mp hTakes
    exact ⟨hOk, .inr ⟨t, rfl, hRuns, hReset⟩⟩

include hFlag

theorem hadSyntaxError_of_takes : s'.reporter.hadSyntaxError = false := by
  obtain ⟨-, ⟨rfl, -⟩ | ⟨t, -, -, rfl⟩⟩ := takes_cases hLine hTakes
  · exact hFlag
  · rfl

omit hFlag in
theorem atGlobals_of_takes (hGlobals : s.machine.environment.atGlobals = true) :
    s'.machine.environment.atGlobals = true := by
  obtain ⟨-, ⟨rfl, -⟩ | ⟨t, -, hRuns, rfl⟩⟩ := takes_cases hLine hTakes
  · exact hGlobals
  · have hAfter := Session.atGlobals_of_runsTo hRuns hGlobals
    exact hAfter

/--
What a line writes is added to the notices. It is the same whatever they were,
and a line that is complained about does nothing else.
-/
theorem exists_written_of_takes :
    ∃ written : List Notice, s'.reporter.notices = s.reporter.notices ++ written.toArray ∧
      (∀ notices, Takes line (s.withNotices notices) outcome
        (s'.withNotices (notices ++ written.toArray))) ∧
      ((∃ n ∈ written, n.isOf "Parse" = true) → s' = s.withNotices s'.reporter.notices) := by
  obtain ⟨rfl, ⟨rfl, hNothing⟩ | ⟨t, hSource, hRuns, rfl⟩⟩ := takes_cases hLine hTakes
  · refine ⟨[], by simp, ?_, by simp⟩
    intro notices
    refine (takes_nothing_iff hNothing).mpr ⟨rfl, ?_⟩
    simp
  · obtain ⟨written, hWritten, hAnyway⟩ := Session.exists_written_of_runsTo hRuns
    refine ⟨written, hWritten, ?_, Session.reset_of_runsTo_of_parse hRuns hFlag hWritten⟩
    intro notices
    exact (takes_source_iff hSource).mpr ⟨rfl, _, hAnyway notices, rfl⟩

end

/-- What is seen of a line is what it wrote. -/
theorem between_eq {written : List Notice}
    (h : s'.reporter.notices = s.reporter.notices ++ written.toArray) :
    Exchange.between line outcome s s' = { line, outcome, written } := by
  unfold Exchange.between
  rw [h]
  simp

-- ---------------------------------------------------------------------------
-- Conversations
-- ---------------------------------------------------------------------------

/-- The same lines from the same session come to the same. -/
theorem conversation_unique {start : Session} {exchanges others : List Exchange}
    (h : Conversation start exchanges s) (h' : Conversation start others t)
    (hLines : others.map (·.line) = exchanges.map (·.line)) : others = exchanges ∧ t = s := by
  induction h generalizing others t with
  | none =>
    obtain rfl := List.map_eq_nil_iff.mp hLines
    generalize hNone : ([] : List Exchange) = others at h'
    cases h' with
    | none => exact ⟨rfl, rfl⟩
    | next _ _ => simp at hNone
  | @next earlier line outcome s s' hEarlier hTakes ih =>
    cases h' with
    | none => simp at hLines
    | @next earlier' line' outcome' r r' hEarlier' hTakes' =>
      rw [List.map_append, List.map_append] at hLines
      obtain ⟨hLines, hLast⟩ := List.append_inj' hLines rfl
      obtain ⟨rfl, rfl⟩ := ih hEarlier' hLines
      obtain rfl : line' = line := List.singleton_inj.mp hLast
      obtain ⟨rfl, rfl⟩ := takes_unique hTakes' hTakes
      exact ⟨rfl, rfl⟩

section

variable {start : Session} {exchanges : List Exchange}
  (hFlag : start.reporter.hadSyntaxError = false)

/-- None of the lines is a command. -/
def Uncommanded (exchanges : List Exchange) : Prop :=
  ∀ e ∈ exchanges, ∀ c, Request.ofLine e.line ≠ .command c

theorem uncommanded_append_singleton {earlier : List Exchange} {e : Exchange} :
    Uncommanded (earlier ++ [e]) ↔
      Uncommanded earlier ∧ ∀ c, Request.ofLine e.line ≠ .command c := by
  unfold Uncommanded
  simp only [List.mem_append, List.mem_singleton, or_imp, forall_and, forall_eq]

theorem outcomes_of_conversation (h : Conversation start exchanges s)
    (hLines : Uncommanded exchanges) : ∀ e ∈ exchanges, e.outcome = .ok {} := by
  induction h with
  | none => simp
  | @next earlier line outcome s s' hEarlier hTakes ih =>
    obtain ⟨hBefore, hLine⟩ := uncommanded_append_singleton.mp hLines
    intro e he
    rcases List.mem_append.mp he with hMem | hMem
    · exact ih hBefore e hMem
    · rw [List.mem_singleton.mp hMem]
      exact (takes_cases hLine hTakes).1

theorem atGlobals_of_conversation (h : Conversation start exchanges s)
    (hLines : Uncommanded exchanges) (hGlobals : start.machine.environment.atGlobals = true) :
    s.machine.environment.atGlobals = true := by
  induction h with
  | none => exact hGlobals
  | @next earlier line outcome s s' hEarlier hTakes ih =>
    obtain ⟨hBefore, hLine⟩ := uncommanded_append_singleton.mp hLines
    exact atGlobals_of_takes hLine hTakes (ih hBefore)

include hFlag

theorem hadSyntaxError_of_conversation (h : Conversation start exchanges s)
    (hLines : Uncommanded exchanges) : s.reporter.hadSyntaxError = false := by
  induction h with
  | none => exact hFlag
  | @next earlier line outcome s s' hEarlier hTakes ih =>
    obtain ⟨hBefore, hLine⟩ := uncommanded_append_singleton.mp hLines
    exact hadSyntaxError_of_takes hLine hTakes (ih hBefore)

/-- The notices are those from the start and what the lines wrote, in order. -/
theorem notices_of_conversation (h : Conversation start exchanges s)
    (hLines : Uncommanded exchanges) :
    s.reporter.notices =
      start.reporter.notices ++ (exchanges.flatMap (·.written)).toArray := by
  induction h with
  | none => simp
  | @next earlier line outcome s s' hEarlier hTakes ih =>
    obtain ⟨hBefore, hLine⟩ := uncommanded_append_singleton.mp hLines
    have hBeforeFlag := hadSyntaxError_of_conversation hFlag hEarlier hBefore
    obtain ⟨written, hWritten, -, -⟩ := exists_written_of_takes hLine hTakes hBeforeFlag
    rw [List.flatMap_append, List.flatMap_singleton, between_eq hWritten, hWritten, ih hBefore,
      Array.append_assoc]
    simp

/-- By induction on the lines: a bad one leaves the session as it was, but for the notices. -/
theorem conversation_good (h : Conversation start exchanges s) (hLines : Uncommanded exchanges) :
    Conversation start (good exchanges) (s.withNotices
      (start.reporter.notices ++ ((good exchanges).flatMap (·.written)).toArray)) := by
  induction h with
  | none =>
    have hSame : start.withNotices (start.reporter.notices ++ #[]) = start := by
      rw [Array.append_empty]
      rfl
    rw [← hSame]
    exact .none
  | @next earlier line outcome s s' hEarlier hTakes ih =>
    obtain ⟨hBefore, hLine⟩ := uncommanded_append_singleton.mp hLines
    have hBeforeFlag := hadSyntaxError_of_conversation hFlag hEarlier hBefore
    obtain ⟨written, hWritten, hAnyway, hBad⟩ := exists_written_of_takes hLine hTakes hBeforeFlag
    rw [between_eq hWritten]
    cases hCase : Exchange.bad ⟨line, outcome, written⟩ with
    | true =>
      rw [good_append_of_bad hCase, hBad (List.any_eq_true.mp hCase)]
      exact ih hBefore
    | false =>
      have hNext := Conversation.next (ih hBefore) (hAnyway _)
      have hWrittenSoFar : ∀ before : List Notice, (before ++ written).toArray =
          before.toArray ++ written.toArray := by simp
      rw [between_eq rfl, Array.append_assoc, ← hWrittenSoFar] at hNext
      rw [good_append_of_not_bad hCase, List.flatMap_append, List.flatMap_singleton]
      exact hNext

end

-- ---------------------------------------------------------------------------
-- Faults
-- ---------------------------------------------------------------------------

/--
A line stops at a fault in one of its statements. Those before it went through,
and the machine is the one that the fault left: nothing is taken back that was
printed, nor any value of a global that was set.
-/
def StopsAtFault (line : String) (before after : Session) (written : List Notice) : Prop :=
  ∃ (earlier later : List Stmt) (stopped : Stmt) (k : Machine) (f : Fault),
    statementsIn line = earlier ++ stopped :: later ∧
      Stmt.AllEnd earlier (before.start (statementsIn line)) (.ok () k) ∧
      stopped.Ends k (.error (.fault f) after.machine) ∧
      written = [f.notice] ∧
      (∃ lines : List String, after.machine.printed = k.printed ++ lines.toArray) ∧
      ∀ name ∉ stopped.assigned, name ∉ stopped.declared →
        after.machine.environment.globals.get? name = k.environment.globals.get? name

/-- A line that ran into a fault stopped there. -/
theorem stopsAtFault_of_takes {written : List Notice}
    (hLine : ∀ c, Request.ofLine line ≠ .command c) (hTakes : Takes line s outcome s')
    (hGlobals : s.machine.environment.atGlobals = true)
    (hWritten : s'.reporter.notices = s.reporter.notices ++ written.toArray)
    (hFault : ∃ n ∈ written, n.isOf "Runtime" = true) : StopsAtFault line s s' written := by
  obtain ⟨n, hn, hRuntime⟩ := hFault
  obtain ⟨-, ⟨rfl, -⟩ | ⟨t, -, hRuns, rfl⟩⟩ := takes_cases hLine hTakes
  · have hNone : written = [] := by simpa using hWritten
    rw [hNone] at hn
    cases hn
  · cases hRuns with
    | blocked _ =>
      rw [Session.written_of_blocked hWritten] at hn
      exact absurd (hRuntime.symm.trans (Session.isOf_of_mem_complaintsAbout hn).2)
        (by decide)
    | @ended ending hOpen hEnds =>
      obtain rfl := Session.written_of_ended hOpen hWritten
      rcases Session.ending_cases hEnds with ⟨m, rfl⟩ | ⟨f, m, rfl⟩
      · cases hn
      · obtain ⟨earlier, stopped, later, k, hStatements, hEarlier, hStopped⟩ :=
          exists_halting hEnds
        have hStart : (s.start (statementsIn line)).environment = s.machine.environment :=
          Session.environment_start (statementsIn line) s
        have hAtGlobals : k.environment.atGlobals = true := by
          obtain ⟨-, rounds, hRun⟩ := hEarlier
          have hMachine : Ending.machine (execAll rounds earlier (s.start _)) = k :=
            congrArg Ending.machine hRun
          rw [← hMachine]
          exact Session.atGlobals_execAll rounds earlier (by rwa [hStart])
        obtain ⟨hPrinted, hNames⟩ := kept_of_ends hStopped hAtGlobals
        exact ⟨earlier, later, stopped, k, f, hStatements, hEarlier, hStopped, rfl, hPrinted,
          hNames⟩

-- ---------------------------------------------------------------------------
-- Bad lines
-- ---------------------------------------------------------------------------

/-- What lines at the prompt leave behind, beside what they leave without the bad ones. -/
structure Undisturbed (start : Session) (exchanges : List Exchange) (s : Session) : Prop where
  /-- No line ends the conversation, and none raises anything. -/
  outcomes : ∀ e ∈ exchanges, e.outcome = .ok {}
  forgotten : s.reporter.hadSyntaxError = false
  atGlobals : s.machine.environment.atGlobals = true
  notices : s.reporter.notices =
    start.reporter.notices ++ (exchanges.flatMap (·.written)).toArray
  /--
  To enter the other lines alone is to have the same said about each of them, and
  to come to the same session, but for what was written about the bad ones.
  -/
  without : ∀ others t, others.map (·.line) = (good exchanges).map (·.line) →
    (Conversation start others t ↔ others = good exchanges ∧ t = s.withNotices
      (start.reporter.notices ++ ((good exchanges).flatMap (·.written)).toArray))
  /-- If the next line runs into a fault, it stops there, at the global scope again. -/
  faults : ∀ line outcome after, (∀ c, Request.ofLine line ≠ .command c) →
    Takes line s outcome after →
    (∃ n ∈ (Exchange.between line outcome s after).written, n.isOf "Runtime" = true) →
      StopsAtFault line s after (Exchange.between line outcome s after).written ∧
        after.machine.environment.atGlobals = true

/--
Any lines but commands are entered one after the other at a prompt that starts at
the global scope, with no complaint standing that would keep the first one from
running; each of them comes to an end. Then the bad ones leave nothing but what
was written about them. As the lines are any lines, this holds behind each of them.
-/
theorem bad_lines_leave_nothing {start s : Session} {exchanges : List Exchange}
    (hFlag : start.reporter.hadSyntaxError = false)
    (hGlobals : start.machine.environment.atGlobals = true) (hLines : Uncommanded exchanges)
    (h : Conversation start exchanges s) : Undisturbed start exchanges s := by
  have hGood := conversation_good hFlag h hLines
  have hForgotten := hadSyntaxError_of_conversation hFlag h hLines
  have hAtGlobals := atGlobals_of_conversation h hLines hGlobals
  refine ⟨outcomes_of_conversation h hLines, hForgotten, hAtGlobals,
    notices_of_conversation hFlag h hLines, ?_, ?_⟩
  · intro others t hSame
    constructor
    · intro hOthers
      exact conversation_unique hGood hOthers hSame
    · rintro ⟨rfl, rfl⟩
      exact hGood
  · intro line outcome after hLine hTakes hFault
    obtain ⟨written, hWritten, -, -⟩ := exists_written_of_takes hLine hTakes hForgotten
    rw [between_eq hWritten] at hFault ⊢
    exact ⟨stopsAtFault_of_takes hLine hTakes hAtGlobals hWritten hFault,
      atGlobals_of_takes hLine hTakes hAtGlobals⟩

/-- A line that does not parse between two others, of which the second one runs into a fault. -/
theorem bad_lines_leave_nothing_between :
    let first := (enter 0 "var a = true;" {}).2
    let second := (enter 0 "print ;" first).2
    let third := (enter 0 "{ a = nil; print b; }" second).2
    let exchanges : List Exchange := [.between "var a = true;" (.ok {}) {} first,
      .between "print ;" (.ok {}) first second,
      .between "{ a = nil; print b; }" (.ok {}) second third]
    Conversation {} exchanges third ∧ Undisturbed {} exchanges third ∧
      (good exchanges).map (·.line) = ["var a = true;", "{ a = nil; print b; }"] ∧
      third.reporter.notices.size = 2 ∧
      (third.machine.environment.globals.get? "a").map Value.shown = some "nil" := by
  intro first second third exchanges
  have hTakes : ∀ (line : String) (s : Session), (enter 0 line s).1 = .ok {} →
      Takes line s (.ok {}) (enter 0 line s).2 :=
    fun line s hOk => ⟨0, Prod.ext hOk rfl, by simp⟩
  have hFirst := hTakes "var a = true;" {} (by decide +kernel)
  have hSecond := hTakes "print ;" first (by decide +kernel)
  have hThird := hTakes "{ a = nil; print b; }" second (by decide +kernel)
  have hConversation : Conversation {} exchanges third :=
    .next (.next (.next .none hFirst) hSecond) hThird
  have hLines : Uncommanded exchanges := by
    have hNone : ∀ e ∈ exchanges, commandNames.lookup (Text.strip e.line) = none := by
      decide +kernel
    intro e he c
    unfold Request.ofLine
    dsimp only
    rw [hNone e he]
    split
    · exact Request.noConfusion
    · exact Request.noConfusion
  exact ⟨hConversation, bad_lines_leave_nothing rfl rfl hLines hConversation, by decide +kernel,
    by decide +kernel, by decide +kernel⟩

end Prompt

end Scriptlet
