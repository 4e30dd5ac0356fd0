import Scriptlet.Proofs.Report.Codes
import Scriptlet.Proofs.Session.Places
import Scriptlet.Proofs.Session.Steps

/-!
# Scriptlet — colors change nothing but escape codes

Whether a reporter colors decides how its notices look and nothing else: no step
of a session asks. What is painted is quoted from sources, paths and fixed texts,
so if sources and paths have no escape character of their own, taking the codes
out of colored text gives the plain text, behind every step of a session.

## Results

* `Request`, `answers`      — steps, with the reporter's guard around them or without.
* `answer_colored`          — no step asks for the color.
* `unescaped_answer`        — no step writes an escape character that was not there.
* `colors_add_codes_only`   — a colored session and a plain one, step by step.
-/

namespace Scriptlet

-- ---------------------------------------------------------------------------
-- Texts without an escape character
-- ---------------------------------------------------------------------------

theorem unescaped_line (line : Int) : Unescaped (toString line) := by
  have hNat : ∀ n : Nat, '\x1b' ∉ n.repr.toList := by
    intro n hMem
    rw [Nat.repr_eq_ofList_toDigits, String.toList_ofList] at hMem
    have hDigit := Nat.isDigit_of_mem_toDigits (by decide) (by decide) hMem
    exact absurd hDigit (by decide)
  cases line with
  | ofNat n => exact hNat n
  | negSucc n =>
    exact unescaped_append.mpr ⟨by decide, hNat (n + 1)⟩

theorem unescaped_diagnostic (line : Int) {category place message : String}
    (hCategory : Unescaped category) (hPlace : Unescaped place) (hMessage : Unescaped message) :
    (Notice.diagnostic { line, category, place, message }).Unescaped := by
  have hSpace : Unescaped (if place.isEmpty then "" else " " ++ place) := by
    split
    · decide
    · exact unescaped_append.mpr ⟨by decide, hPlace⟩
  simp only [Notice.Unescaped, Notice.text, Diagnostic.format, Paint.plain, unescaped_append]
  exact ⟨⟨⟨⟨⟨⟨⟨by decide, unescaped_line line⟩, by decide⟩, by decide⟩, hCategory, by decide⟩,
    hSpace⟩, by decide⟩, hMessage⟩

theorem unescaped_failure {message : String} (internal : Bool) (h : Unescaped message) :
    (Notice.failure message internal).Unescaped := by
  simp only [Notice.Unescaped, Notice.text, Paint.plain, unescaped_append]
  refine ⟨⟨?_, by decide⟩, h⟩
  cases internal <;> decide

theorem unescaped_placeOf {t : Token} (h : Unescaped t.lexeme) : Unescaped (Reporter.placeOf t) :=
  unescaped_append.mpr ⟨unescaped_append.mpr ⟨by decide, h⟩, by decide⟩

/-- A complaint in its own words has no escape character. -/
theorem unescaped_message {c : Complaint} (h : c.isFixed = true) : Unescaped c.message := by
  cases c with
  | unexpectedCharacter c => cases h
  | missing text => cases h
  | _ => decide

theorem unescaped_fault {f : Fault} (h : Unescaped f.token.lexeme) : f.notice.Unescaped := by
  refine unescaped_diagnostic _ (by decide) (unescaped_placeOf h) ?_
  unfold Fault.message
  cases f.cause with
  | undefinedVariable =>
    exact unescaped_append.mpr ⟨unescaped_append.mpr ⟨by decide, h⟩, by decide⟩
  | _ =>
    dsimp only
    decide

section

variable {source : String} (hSource : Unescaped source)

include hSource

theorem unescaped_lexeme {t : Token} (ht : t ∈ (lex source).1) : Unescaped t.lexeme :=
  fun hMem => hSource (mem_of_mem_lexeme ht hMem)

/-- What is wrong with a source is said without an escape character. -/
theorem unescaped_complaintsAbout : ∀ n ∈ complaintsAbout source, n.Unescaped := by
  intro n hn
  rcases List.mem_append.mp hn with hRemark | hReport
  · obtain ⟨m, hm, rfl⟩ := List.mem_map.mp hRemark
    refine unescaped_diagnostic _ (by decide) (by decide) ?_
    rcases message_of_mem_remarks hm with hEq | ⟨c, hc, hEq⟩
    · rw [hEq]
      decide
    · have hChar : Unescaped c.toString := by
        intro hMem
        have hEscape : '\x1b' = c := by simpa using hMem
        exact hSource (hEscape ▸ hc)
      rw [hEq]
      exact unescaped_append.mpr ⟨unescaped_append.mpr ⟨by decide, hChar⟩, by decide⟩
  · obtain ⟨r, hr, rfl⟩ := List.mem_map.mp hReport
    obtain ⟨hToken, hFixed⟩ := token_of_mem_reports hr
    refine unescaped_diagnostic _ (by decide) ?_ (unescaped_message hFixed)
    split
    · decide
    · exact unescaped_placeOf (unescaped_lexeme hSource hToken)

/-- Neither are faults. -/
theorem unescaped_faultsOf {rounds : Nat} {m : Machine} :
    ∀ n ∈ Session.faultsOf (execAll rounds (statementsIn source) m), n.Unescaped := by
  intro n hn
  cases hEnding : execAll rounds (statementsIn source) m with
  | ok done after =>
    rw [hEnding] at hn
    cases hn
  | error halt after =>
    rw [hEnding] at hn
    cases halt with
    | fault f =>
      rw [List.mem_singleton.mp hn]
      exact unescaped_fault (unescaped_lexeme hSource (token_of_fault hEnding))
    | defect d => cases hn
    | unfinished => cases hn

end

theorem Reporter.Unescaped.more {r after : Reporter} (h : r.Unescaped) {written : List Notice}
    (hWritten : ∀ n ∈ written, n.Unescaped)
    (hNotices : after.notices = r.notices ++ written.toArray) :
    after.Unescaped := by
  intro n hn
  rw [hNotices, Array.toList_append, List.toList_toArray] at hn
  rcases List.mem_append.mp hn with hEarlier | hNew
  · exact h n hEarlier
  · exact hWritten n hNew

-- ---------------------------------------------------------------------------
-- Steps
-- ---------------------------------------------------------------------------

/-- Why a file could not be read is said without an escape character, if its path has none. -/
def Escape.Unescaped : Escape → Prop
  | failure message _ => Scriptlet.Unescaped message
  | foreign kind message => Scriptlet.Unescaped kind ∧ Scriptlet.Unescaped message
  | _ => True

theorem unescaped_readSource {folder : Folder} {path : String} {e : Escape}
    (hPath : Unescaped path) (h : readSource folder path = .error e) : e.Unescaped := by
  unfold readSource at h
  split at h
  · cases h
    show Unescaped ("'" ++ promptName ++ "' is a reserved filename")
    decide
  · split at h
    · cases h
      exact ⟨by decide, by decide⟩
    · split at h
      · cases h
        exact unescaped_append.mpr ⟨unescaped_append.mpr ⟨by decide, hPath⟩, by decide⟩
      · cases h

theorem unescaped_notice? {e : Escape} (h : e.Unescaped) {n : Notice} (hn : e.notice? = some n) :
    n.Unescaped := by
  cases e with
  | interrupted =>
    cases hn
    exact unescaped_failure false (by decide)
  | tooDeep =>
    cases hn
    exact unescaped_failure false (by decide)
  | failure message internal =>
    cases hn
    exact unescaped_failure internal h
  | «foreign» kind message =>
    cases hn
    obtain ⟨hKind, hMessage⟩ := h
    refine unescaped_failure true ?_
    simp only [unescaped_append]
    exact ⟨⟨⟨⟨by decide, hKind⟩, by decide⟩, hMessage⟩, by decide⟩
  | exit code => cases hn
  | unfinished => cases hn

namespace Session

/-- A session that colors or does not. -/
def colored (on : Bool) (s : Session) : Session :=
  { s with reporter := { s.reporter with color := on } }

/-- What a step returns or raises, and the session behind it. -/
def Step.answer (rounds : Nat) : Step → Session → Except Escape (List Stmt) × Session
  | run source, s => s.run rounds source
  | runFile folder path, s => s.runFile rounds folder path
  | reset, s => (.ok [], s.reset)
  | debug on, s => (.ok [], { s with debug := on })

/-- A step by itself, or inside the reporter's guard, which deals with what the step raises. -/
structure Request where
  step : Step
  guarded : Bool := false

/-- What the step returned or raised and, inside the guard, what became of that. -/
structure Answer where
  result : Except Escape (List Stmt)
  guarded? : Option Guarded := none

/-- The error that a step raised, if it did. -/
def raised? : Except Escape (List Stmt) → Option Escape
  | .ok _ => none
  | .error e => some e

/-- Leaves to the reporter's guard what a step raised. -/
def leave (result : Except Escape (List Stmt)) (s : Session) : Guarded × Session :=
  let (guarded, reporter) := s.reporter.guard (raised? result)
  (guarded, { s with reporter })

/-- What comes of a request. -/
def Request.answer (rounds : Nat) (q : Request) (s : Session) : Answer × Session :=
  let (result, s) := q.step.answer rounds s
  if q.guarded then
    let (guarded, s) := s.leave result
    ({ result, guarded? := some guarded }, s)
  else ({ result }, s)

/-- What comes of one request after the other. -/
def answers (rounds : Nat) : List Request → Session → List (Answer × Session)
  | [], _ => []
  | q :: rest, s => q.answer rounds s :: answers rounds rest (q.answer rounds s).2

variable {rounds : Nat} {q : Request} {s : Session}

-- ---------------------------------------------------------------------------
-- Colored and plain
-- ---------------------------------------------------------------------------

theorem run_colored (on : Bool) (rounds : Nat) (source : String) (s : Session) :
    (s.colored on).run rounds source =
      ((s.run rounds source).1, (s.run rounds source).2.colored on) := by
  cases hFlag : (s.afterReading source).reporter.hadSyntaxError with
  | true =>
    rw [run_of_flag hFlag]
    have hColored : (s.colored on).run rounds source = _ := run_of_flag hFlag
    rw [hColored]
    rfl
  | false =>
    have hColored : (s.colored on).run rounds source = _ := run_eq_settle hFlag
    rw [hColored, run_eq_settle hFlag, settle_eq, settle_eq]
    rfl

theorem step_answer_colored (on : Bool) (step : Step) (s : Session) :
    step.answer rounds (s.colored on) =
      ((step.answer rounds s).1, (step.answer rounds s).2.colored on) := by
  cases step with
  | run source => exact run_colored on rounds source s
  | reset => rfl
  | debug debug => rfl
  | runFile folder path =>
    show (s.colored on).runFile rounds folder path = ((s.runFile rounds folder path).1,
      (s.runFile rounds folder path).2.colored on)
    cases hSource : readSource folder path with
    | error e => rw [runFile_of_error hSource, runFile_of_error hSource]
    | ok source => rw [runFile_of_ok rounds hSource, runFile_of_ok rounds hSource, run_colored]

theorem leave_colored (on : Bool) (result : Except Escape (List Stmt)) (s : Session) :
    (s.colored on).leave result = ((s.leave result).1, (s.leave result).2.colored on) := by
  have hGuard := Reporter.guard_colored on (raised? result) s.reporter
  unfold leave colored
  rw [hGuard]

theorem answer_colored (on : Bool) (q : Request) (s : Session) :
    q.answer rounds (s.colored on) =
      ((q.answer rounds s).1, (q.answer rounds s).2.colored on) := by
  unfold Request.answer
  rw [step_answer_colored]
  dsimp only
  cases q.guarded with
  | false => rfl
  | true =>
    rw [if_pos rfl, if_pos rfl, leave_colored]

theorem answers_colored (on : Bool) (rounds : Nat) (requests : List Request) (s : Session) :
    answers rounds requests (s.colored on) =
      (answers rounds requests s).map fun a => (a.1, a.2.colored on) := by
  induction requests generalizing s with
  | nil => rfl
  | cons q rest ih => rw [answers, answers, answer_colored, ih, List.map_cons]

-- ---------------------------------------------------------------------------
-- What is written
-- ---------------------------------------------------------------------------

/-- A step on sources and paths without escape characters. -/
def Step.Unescaped : Step → Prop
  | run source => Scriptlet.Unescaped source
  | runFile folder path => Scriptlet.Unescaped path ∧
      ∀ source, readSource folder path = .ok source → Scriptlet.Unescaped source
  | reset => True
  | debug _ => True

theorem unescaped_run {source : String} (hSource : Unescaped source)
    (hStart : s.reporter.Unescaped) : (s.run rounds source).2.reporter.Unescaped := by
  have hRead : (s.afterReading source).reporter.Unescaped :=
    hStart.more (unescaped_complaintsAbout hSource) rfl
  cases hFlag : (s.afterReading source).reporter.hadSyntaxError with
  | true =>
    rw [run_of_flag hFlag]
    exact hRead
  | false =>
    rw [run_eq_settle hFlag, settle_eq]
    exact hRead.more (unescaped_faultsOf hSource) rfl

/-- A run raises nothing, or it has not ended. -/
theorem unescaped_of_run {source : String} {e : Escape} (h : (s.run rounds source).1 = .error e) :
    e.Unescaped := by
  by_cases hEnds : (s.run rounds source).1 = .error .unfinished
  · cases h.symm.trans hEnds
    trivial
  · obtain ⟨hOk, -⟩ := run_ends rfl hEnds
    cases h.symm.trans hOk

theorem unescaped_step_answer (rounds : Nat) {step : Step} (hStep : step.Unescaped)
    (hStart : s.reporter.Unescaped) :
    (step.answer rounds s).2.reporter.Unescaped ∧
      ∀ e, (step.answer rounds s).1 = .error e → e.Unescaped := by
  cases step with
  | reset => exact ⟨hStart, by rintro e ⟨⟩⟩
  | debug on => exact ⟨hStart, by rintro e ⟨⟩⟩
  | run source => exact ⟨unescaped_run hStep hStart, fun e h => unescaped_of_run h⟩
  | runFile folder path =>
    obtain ⟨hPath, hContent⟩ := hStep
    cases hSource : readSource folder path with
    | error e =>
      have hAnswer : (Step.runFile folder path).answer rounds s = (.error e, s) :=
        runFile_of_error hSource
      rw [hAnswer]
      refine ⟨hStart, ?_⟩
      rintro _ ⟨⟩
      exact unescaped_readSource hPath hSource
    | ok source =>
      have hAnswer : (Step.runFile folder path).answer rounds s = s.run rounds source :=
        runFile_of_ok rounds hSource
      rw [hAnswer]
      exact ⟨unescaped_run (hContent source hSource) hStart, fun e h => unescaped_of_run h⟩

/-- The guard writes what it was left with. -/
theorem unescaped_leave {result : Except Escape (List Stmt)}
    (hRaised : ∀ e, result = .error e → e.Unescaped) (hStart : s.reporter.Unescaped) :
    (s.leave result).2.reporter.Unescaped := by
  have hNotices := Reporter.notices_guard (raised? result) s.reporter
  refine hStart.more ?_ hNotices
  intro n hn
  obtain ⟨e, hRaise, hNotice⟩ := Option.bind_eq_some_iff.mp (Option.mem_toList.mp hn)
  cases result with
  | ok statements => cases hRaise
  | error raised =>
    cases hRaise
    exact unescaped_notice? (hRaised _ rfl) hNotice

/-- No step writes an escape character that was not in its source or its path. -/
theorem unescaped_answer (rounds : Nat) (hStep : q.step.Unescaped) (hStart : s.reporter.Unescaped) :
    (q.answer rounds s).2.reporter.Unescaped := by
  obtain ⟨hAfter, hRaised⟩ := unescaped_step_answer rounds hStep hStart
  unfold Request.answer
  cases q.guarded with
  | false => exact hAfter
  | true => exact unescaped_leave hRaised hAfter

theorem unescaped_answers {requests : List Request} (hRequests : ∀ q ∈ requests, q.step.Unescaped)
    (hStart : s.reporter.Unescaped) :
    ∀ a ∈ answers rounds requests s, a.2.reporter.Unescaped := by
  induction requests generalizing s with
  | nil =>
    intro a ha
    cases ha
  | cons q rest ih =>
    obtain ⟨hThis, hRest⟩ := List.forall_mem_cons.mp hRequests
    have hAfter := unescaped_answer rounds hThis hStart
    exact List.forall_mem_cons.mpr ⟨hAfter, ih hRest hAfter⟩

-- ---------------------------------------------------------------------------
-- Two sessions
-- ---------------------------------------------------------------------------

/-- Sessions that differ in nothing but the escape codes of what they wrote. -/
structure DifferInCodes (colored plain : Session) : Prop where
  machine : colored.machine = plain.machine
  hadSyntaxError : colored.reporter.hadSyntaxError = plain.reporter.hadSyntaxError
  hadRuntimeError : colored.reporter.hadRuntimeError = plain.reporter.hadRuntimeError
  text : withoutCodes colored.reporter.text = plain.reporter.text
  /-- Any other paint that only adds codes would do. -/
  textIn : ∀ paint : Paint, paint.Wraps →
    withoutCodes (colored.reporter.textIn paint) = plain.reporter.text

theorem differInCodes_colored (h : s.reporter.Unescaped) :
    (s.colored true).DifferInCodes (s.colored false) where
  machine := rfl
  hadSyntaxError := rfl
  hadRuntimeError := rfl
  text := by
    rw [Reporter.text_eq, Reporter.text_eq]
    exact withoutCodes_of_covers (Reporter.covers_textIn wraps_terminal h)
  textIn _ hPaint := by
    rw [Reporter.text_eq]
    exact withoutCodes_of_covers (Reporter.covers_textIn hPaint h)

/--
The same requests to a session that colors and to one that does not. Sources and
paths have no escape character. Behind every request the two have got the same
answer and differ in nothing but the escape codes of what they wrote.
-/
theorem colors_add_codes_only (rounds : Nat) (requests : List Request) (s : Session)
    (hStart : s.reporter.Unescaped) (hRequests : ∀ q ∈ requests, q.step.Unescaped) :
    List.Forall₂ (fun colored plain => colored.1 = plain.1 ∧ colored.2.DifferInCodes plain.2)
      (answers rounds requests (s.colored true)) (answers rounds requests (s.colored false)) := by
  rw [answers_colored, answers_colored, List.forall₂_map_left_iff, List.forall₂_map_right_iff,
    List.forall₂_same]
  intro a ha
  exact ⟨rfl, differInCodes_colored (unescaped_answers hRequests hStart a ha)⟩

/-- A fault, a complaint and a file that cannot be read, the last one inside the guard. -/
def troubles : List Request :=
  [{ step := .run "x;" }, { step := .run "#" },
    { step := .runFile (fun _ => none) "lost", guarded := true }]

/-- Without its codes the colored text of three troubles is the plain one. -/
theorem colors_add_codes_only_troubles :
    let colored := answers 0 troubles (({} : Session).colored true)
    let first := "[line 1] RuntimeError at 'x': Undefined variable 'x'.\n"
    let second := "[line 1] ParseError: Unexpected character '#'.\n"
    (colored.head?.map fun a => a.2.reporter.text) = some ("\x1b[1m[line 1]\x1b[0m " ++
        "\x1b[1m\x1b[31mRuntimeError\x1b[0m at 'x': Undefined variable 'x'.\n") ∧
      (colored.map fun a => withoutCodes a.2.reporter.text) =
        [first, first ++ second, first ++ second ++ "error: 'lost' could not be opened\n"] := by
  intro colored first second
  have hStart : ({} : Session).reporter.Unescaped := by
    intro n hn
    cases hn
  have hRequests : ∀ q ∈ troubles, q.step.Unescaped := by
    intro q hq
    simp only [troubles, List.mem_cons, List.not_mem_nil, or_false] at hq
    rcases hq with rfl | rfl | rfl
    · show Unescaped "x;"
      decide
    · show Unescaped "#"
      decide
    · refine ⟨by decide, ?_⟩
      intro source hSource
      simp [readSource, promptName] at hSource
  have hAll := colors_add_codes_only 0 troubles {} hStart hRequests
  have hTexts : (colored.map fun a => withoutCodes a.2.reporter.text) =
      (answers 0 troubles (({} : Session).colored false)).map fun a => a.2.reporter.text := by
    rw [← List.forall₂_eq_eq_eq, List.forall₂_map_left_iff, List.forall₂_map_right_iff]
    exact hAll.imp fun _ _ h => h.2.text
  refine ⟨?_, ?_⟩
  · simp only [Reporter.text_eq]
    decide +kernel
  · rw [hTexts]
    simp only [Reporter.text_eq]
    decide +kernel

end Session

end Scriptlet
