import Mathlib.Logic.Equiv.Basic
import Scriptlet.Proofs.Run.InnerScope
import Scriptlet.Proofs.Session.Sources

/-!
# Scriptlet — other names

What a variable is called does not matter. If all names in a program and in the
scopes that it runs in are replaced by others, different ones by different ones,
the program runs just as it did, and only a complaint about an undefined
variable shows that the name is another. The step is a single binding: looking
up, assigning and defining a name after the renaming is what they are before it,
renamed.

## Results

* `Token.renamed`, `Scope.renamed`, `Machine.renamed` — other names everywhere.
* `lookupIn_renamed`, `assignIn_renamed` — names in a chain of scopes.
* `likeness_renamed`        — every use of a name, before and after.
* `execAll_renamed`         — statements.
* `interpret_renamed`       — statements in a session, with what is reported.
-/

namespace Scriptlet

open Run

-- ---------------------------------------------------------------------------
-- Renaming
-- ---------------------------------------------------------------------------

variable (r : String → String)

/-- A token with its text renamed. -/
def Token.renamed (t : Token) : Token := { t with lexeme := r t.lexeme }

/-- A scope with its names renamed, in their order. -/
def Scope.renamed (s : Scope) : Scope where
  bindings := s.bindings.map fun b => (r b.1, b.2)

/-- An environment with the names of all its scopes renamed. -/
def Environment.renamed (env : Environment) : Environment where
  current := env.current.renamed r
  enclosing := env.enclosing.map (Scope.renamed r)

/-- A machine with the names of all its scopes renamed. -/
def Machine.renamed (m : Machine) : Machine :=
  { m with environment := m.environment.renamed r }

/-- A fault with the name renamed, if it is about a name. -/
def Fault.renamed (f : Fault) : Fault :=
  match f.cause with
  | .undefinedVariable => { f with token := f.token.renamed r }
  | _ => f

/-- A halt with the name renamed, if it is about a name. -/
def Halt.renamed : Halt → Halt
  | fault f => fault (f.renamed r)
  | defect d => defect d
  | unfinished => unfinished

/-- An ending with the names of the machine renamed, and that of a fault. -/
def Ending.renamed : Ending Unit → Ending Unit
  | .ok done m => .ok done (m.renamed r)
  | .error halt m => .error (halt.renamed r) (m.renamed r)

/-- A session with the names of all its scopes renamed. -/
def Session.renamed (s : Session) : Session := { s with machine := s.machine.renamed r }

-- ---------------------------------------------------------------------------
-- Scopes
-- ---------------------------------------------------------------------------

section

variable {r : String → String} (hr : Function.Injective r)

include hr

theorem lookup_renamed (name : String) (bs : List (String × Value)) :
    (bs.map fun b => (r b.1, b.2)).lookup (r name) = bs.lookup name := by
  induction bs with
  | nil => rfl
  | cons b rest ih =>
    have hSame : (r name == r b.1) = (name == b.1) := by
      rw [Bool.eq_iff_iff, beq_iff_eq, beq_iff_eq]
      exact hr.eq_iff
    rw [List.map_cons, List.lookup_cons, List.lookup_cons, hSame, ih]

theorem bindName_renamed (name : String) (value : Value) (bs : List (String × Value)) :
    bindName (r name) value (bs.map fun b => (r b.1, b.2)) =
      (bindName name value bs).map fun b => (r b.1, b.2) := by
  induction bs with
  | nil => rfl
  | cons b rest ih =>
    rw [List.map_cons, bindName, bindName]
    by_cases h : b.1 = name
    · rw [if_pos h, if_pos (congrArg r h), List.map_cons]
    · have hOther : r b.1 ≠ r name := fun hSame => h (hr hSame)
      rw [if_neg h, if_neg hOther, List.map_cons, ih]

theorem Scope.get?_renamed (s : Scope) (name : String) :
    (s.renamed r).get? (r name) = s.get? name :=
  lookup_renamed hr name s.bindings

theorem Scope.binds_renamed (s : Scope) (name : String) :
    (s.renamed r).binds (r name) = s.binds name := by
  unfold binds
  rw [get?_renamed hr]

theorem Scope.define_renamed (s : Scope) (name : String) (value : Value) :
    (s.renamed r).define (r name) value = (s.define name value).renamed r :=
  congrArg Scope.mk (bindName_renamed hr name value s.bindings)

theorem lookupIn_renamed (name : String) (scopes : List Scope) :
    lookupIn (scopes.map (Scope.renamed r)) (r name) = lookupIn scopes name := by
  unfold lookupIn
  rw [List.findSome?_map]
  congr 1
  funext s
  exact s.get?_renamed hr name

theorem assignIn_renamed (name : String) (value : Value) (scopes : List Scope) :
    assignIn (r name) value (scopes.map (Scope.renamed r)) =
      (assignIn name value scopes).map (List.map (Scope.renamed r)) := by
  induction scopes with
  | nil => rfl
  | cons s rest ih =>
    rw [List.map_cons, assignIn, assignIn, Scope.binds_renamed hr, ih]
    by_cases h : s.binds name = true
    · rw [if_pos h, if_pos h, Scope.define_renamed hr]
      rfl
    · rw [if_neg h, if_neg h, Option.map_map, Option.map_map]
      rfl

-- ---------------------------------------------------------------------------
-- Environments and machines
-- ---------------------------------------------------------------------------

theorem Environment.get?_renamed (env : Environment) (name : String) :
    (env.renamed r).get? (r name) = env.get? name :=
  lookupIn_renamed hr name env.scopes

theorem Environment.assign?_renamed (env : Environment) (name : String) (value : Value) :
    (env.renamed r).assign? (r name) value = (env.assign? name value).map (renamed r) := by
  have hChains : ((env.renamed r).assign? (r name) value).map scopes =
      ((env.assign? name value).map (renamed r)).map scopes := by
    calc ((env.renamed r).assign? (r name) value).map scopes
        = assignIn (r name) value (env.scopes.map (Scope.renamed r)) :=
          map_scopes_assign? (env.renamed r) (r name) value
      _ = ((env.assign? name value).map scopes).map (List.map (Scope.renamed r)) := by
          rw [assignIn_renamed hr, map_scopes_assign?]
      _ = ((env.assign? name value).map (renamed r)).map scopes := by
          rw [Option.map_map, Option.map_map]
          rfl
  exact Option.map_injective (fun _ _ h => ext_scopes h) hChains

theorem Machine.define_renamed (m : Machine) (name : String) (value : Value) :
    (m.renamed r).define (r name) value = (m.define name value).renamed r := by
  have hCurrent := m.environment.current.define_renamed hr name value
  unfold define Environment.define renamed Environment.renamed
  rw [hCurrent]

omit hr in
theorem Machine.pop_renamed (m : Machine) : (m.renamed r).pop = m.pop.renamed r := by
  obtain ⟨⟨current, enclosing⟩, printed⟩ := m
  cases enclosing <;> rfl

-- ---------------------------------------------------------------------------
-- Runs
-- ---------------------------------------------------------------------------

/-- A use of a name comes to the same after the renaming, on the renamed machine. -/
theorem likeness_renamed : Likeness Eq (Token.Becomes (Token.renamed r)) (fun _ => True)
    fun _ m n => n = m.renamed r where
  kind := by
    rintro t _ rfl
    rfl
  lexeme := by
    rintro t _ rfl
    rfl
  lookUp := by
    rintro depth t _ rfl m _ rfl
    have hSame : (m.renamed r).environment.get? (t.renamed r).lexeme =
        m.environment.get? t.lexeme := m.environment.get?_renamed hr t.lexeme
    unfold lookUp
    rw [hSame]
    cases m.environment.get? t.lexeme with
    | some value => exact .ok rfl
    | none => exact .error (.name rfl) rfl
  assign := by
    rintro depth t _ value rfl m _ rfl
    have hSame : (m.renamed r).environment.assign? (t.renamed r).lexeme value =
        (m.environment.assign? t.lexeme value).map (Environment.renamed r) :=
      m.environment.assign?_renamed hr t.lexeme value
    unfold Run.assign
    rw [hSame]
    cases m.environment.assign? t.lexeme value with
    | some environment => exact .ok rfl
    | none => exact .error (.name rfl) rfl
  define := by
    rintro depth m _ t _ value rfl - rfl
    exact m.define_renamed hr t.lexeme value
  print := by
    rintro depth m _ line rfl
    rfl
  push := by
    rintro depth m _ rfl
    rfl
  pop := by
    rintro depth m _ rfl
    exact m.pop_renamed

omit hr in
theorem Halt.Like.eq_renamed {halt other : Halt}
    (h : halt.Like Eq (Token.Becomes (Token.renamed r)) other) : other = halt.renamed r := by
  cases h with
  | @operator t u cause hTokens hCause =>
    subst hTokens
    cases cause with
    | undefinedVariable => exact absurd rfl hCause
    | _ => rfl
  | name hTokens =>
    subst hTokens
    rfl
  | defect d => rfl
  | unfinished => rfl

/-- Renamed statements on a renamed machine end as they did, with all names renamed. -/
theorem execAll_renamed (rounds : Nat) (statements : List Stmt) (m : Machine) :
    execAll rounds (Stmt.mapAllTokens id (Token.renamed r) statements) (m.renamed r) =
      Ending.renamed r (execAll rounds statements m) := by
  have hStatements : Stmt.AllLike Eq (Token.Becomes (Token.renamed r)) Eq statements
      (Stmt.mapAllTokens id (Token.renamed r) statements) :=
    Stmt.allLike_mapAllTokens (fun _ => rfl) statements fun _ _ => rfl
  have hLike := (likeness_renamed hr).like_execAll rounds 0 statements hStatements
    (fun _ _ _ => trivial) (rfl : m.renamed r = m.renamed r)
  generalize execAll rounds statements m = ending at hLike ⊢
  generalize execAll rounds _ (m.renamed r) = other at hLike ⊢
  cases hLike with
  | ok hMachines =>
    rw [hMachines]
    rfl
  | error hHalts hMachines =>
    rw [hHalts.eq_renamed, hMachines]
    rfl

end

-- ---------------------------------------------------------------------------
-- Sessions
-- ---------------------------------------------------------------------------

namespace Session

/--
What is written for a fault once names are renamed: that of an undefined variable
is another, where the fault is and in what is said of it.
-/
def noticeUnder (r : String → String) (f : Fault) : Notice :=
  match f.cause with
  | .undefinedVariable =>
    .diagnostic
      { line := f.token.line, category := "Runtime", place := "at '" ++ r f.token.lexeme ++ "'",
        message := "Undefined variable '" ++ r f.token.lexeme ++ "'." }
  | _ => f.notice

theorem notice_renamed (r : String → String) (f : Fault) :
    (f.renamed r).notice = noticeUnder r f := by
  obtain ⟨token, cause⟩ := f
  cases cause <;> rfl

theorem outcomeOf_renamed (r : String → String) (ending : Ending Unit) :
    outcomeOf (ending.renamed r) = outcomeOf ending := by
  cases ending with
  | ok done m => rfl
  | error halt m => cases halt <;> rfl

theorem machine_renamed (r : String → String) (ending : Ending Unit) :
    (ending.renamed r).machine = ending.machine.renamed r := by
  cases ending <;> rfl

/-- An ending has one fault at most, and the renamed one that fault renamed. -/
theorem exists_faultsOf_renamed (r : String → String) (ending : Ending Unit) :
    ∃ fault? : Option Fault, faultsOf ending = fault?.toList.map Fault.notice ∧
      faultsOf (ending.renamed r) = fault?.toList.map (noticeUnder r) := by
  cases ending with
  | ok done m => exact ⟨none, rfl, rfl⟩
  | error halt m =>
    cases halt with
    | fault f => exact ⟨some f, rfl, congrArg (fun n => [n]) (notice_renamed r f)⟩
    | defect d => exact ⟨none, rfl, rfl⟩
    | unfinished => exact ⟨none, rfl, rfl⟩

/--
Statements run with all their names replaced, different ones by different ones,
in a session whose scopes had theirs replaced too. Given the same number of
rounds they come to the same as they do without: they end if they did, print
what they printed, leave the scopes that they left, with the names replaced, and
report the fault that they reported, if any, with the other name in it.
-/
theorem interpret_renamed {r : String → String} (hr : Function.Injective r) (rounds : Nat)
    (statements : List Stmt) (s : Session) :
    let plain := s.interpret rounds statements
    let other := (s.renamed r).interpret rounds
      (Stmt.mapAllTokens id (Token.renamed r) statements)
    other.1 = plain.1 ∧
      other.2.machine.printed = plain.2.machine.printed ∧
      other.2.machine.environment = plain.2.machine.environment.renamed r ∧
      ∃ fault? : Option Fault,
        plain.2.reporter = s.reporter.faulted (fault?.toList.map Fault.notice) ∧
        other.2.reporter = s.reporter.faulted (fault?.toList.map (noticeUnder r)) := by
  intro plain other
  have hPlain : plain = _ := interpret_eq rounds statements s
  have hOther : other = _ := interpret_eq rounds _ (s.renamed r)
  have hRun : execAll rounds (Stmt.mapAllTokens id (Token.renamed r) statements)
      (s.renamed r).machine = _ := execAll_renamed hr rounds statements s.machine
  rw [hRun] at hOther
  rw [hPlain, hOther]
  dsimp only
  rw [machine_settle, machine_settle, reporter_settle, reporter_settle, outcomeOf_renamed,
    machine_renamed]
  obtain ⟨fault?, hFaults, hRenamed⟩ :=
    exists_faultsOf_renamed r (execAll rounds statements s.machine)
  rw [hFaults, hRenamed]
  exact ⟨rfl, rfl, rfl, fault?, rfl, rfl⟩

/-- `var a = true; print b;` with the two names swapped faults at the other one. -/
theorem interpret_renamed_swapped :
    let swap : String → String := Equiv.swap "a" "b"
    let name (lexeme : String) : Token := { kind := .identifier, lexeme, line := 1 }
    let statements : List Stmt :=
      [.varDecl (name "a") (some (.literal (.bool true))), .print (.variable (name "b"))]
    let other := (renamed swap {}).interpret 0
      (Stmt.mapAllTokens id (Token.renamed swap) statements)
    Function.Injective swap ∧ other.1 = .ok () ∧
      other.2.machine.environment.globals.names = ["b"] ∧
      other.2.reporter.notices = #[.diagnostic
        { line := 1, category := "Runtime", place := "at 'a'",
          message := "Undefined variable 'a'." }] := by
  intro swap name statements other
  have hInjective : Function.Injective swap := (Equiv.swap "a" "b").injective
  obtain ⟨hOutcome, -, hScopes, -⟩ := interpret_renamed hInjective 0 statements {}
  refine ⟨hInjective, hOutcome, ?_, ?_⟩
  · rw [hScopes]
    decide +kernel
  · decide +kernel

end Session

end Scriptlet
