import Scriptlet.Run.Machine

/-!
# Scriptlet — enough rounds

The number of rounds that loops may take is no part of what a program means: a
run that comes to an end comes to the same end with every larger number. So a
statement ends in one way at most, and how it ends can be said without a number.

## Results

* `Ending.Finished`         — no loop was cut short.
* `Run.Extends`             — a run that ends whenever another does, and in the same way.
* `extends_exec`, `extends_execAll` — more rounds extend a run.
* `finite_eval`             — expressions always come to an end.
* `Stmt.Ends`, `Stmt.AllEnd` — how statements end, whatever the number of rounds.
* `ends_unique`, `allEnd_unique` — they end in one way at most.
* `exists_halting`          — the statement in which statements halt.
-/

namespace Scriptlet

-- ---------------------------------------------------------------------------
-- Endings
-- ---------------------------------------------------------------------------

/-- How a run ended, with a value or early, and the machine that it left. -/
abbrev Ending (α : Type) := EStateM.Result Halt Machine α

namespace Ending

variable {α : Type}

/-- The machine that the run left. -/
def machine : Ending α → Machine
  | .ok _ m => m
  | .error _ m => m

/-- Whether the run came to an end, which it did unless a loop was cut short. -/
def Finished : Ending α → Prop
  | .error .unfinished _ => False
  | _ => True

/-- A halt does not depend on what the run would have yielded. -/
theorem finished_error {β : Type} {halt : Halt} {m n : Machine}
    (h : Finished (.error halt m : Ending α)) : Finished (.error halt n : Ending β) := by
  cases halt with
  | fault f => trivial
  | defect d => trivial
  | unfinished => exact h

end Ending

-- ---------------------------------------------------------------------------
-- Runs that extend others
-- ---------------------------------------------------------------------------

namespace Run

variable {α β : Type}

/-- Wherever the first run comes to an end the second one comes to the same end. -/
def Extends (run longer : Run α) : Prop :=
  ∀ m, Ending.Finished (run m) → longer m = run m

theorem extends_refl (run : Run α) : run.Extends run := fun _ _ => rfl

theorem extends_bind {first longer : Run α} {next further : α → Run β}
    (hFirst : first.Extends longer) (hNext : ∀ value, (next value).Extends (further value)) :
    (first >>= next).Extends (longer >>= further) := by
  intro m hFinished
  show EStateM.bind longer further m = EStateM.bind first next m
  have hBind : Ending.Finished (EStateM.bind first next m) := hFinished
  unfold EStateM.bind at hBind ⊢
  cases hRun : first m with
  | ok value middle =>
    have hSame : longer m = .ok value middle := by
      rw [← hRun]
      exact hFirst m (by rw [hRun]; trivial)
    rw [hRun] at hBind
    rw [hSame]
    exact hNext value middle hBind
  | error halt middle =>
    rw [hRun] at hBind
    have hSame : longer m = .error halt middle := by
      rw [← hRun]
      exact hFirst m (by rw [hRun]; exact Ending.finished_error hBind)
    rw [hSame]

theorem extends_inNewScope {body longer : Run α} (hBody : body.Extends longer) :
    (inNewScope body).Extends (inNewScope longer) := by
  intro m hFinished
  unfold inNewScope at hFinished ⊢
  have hInner : Ending.Finished (body m.push) := by
    cases hRun : body m.push with
    | ok value middle => trivial
    | error halt middle =>
      rw [hRun] at hFinished
      exact Ending.finished_error hFinished
  rw [hBody m.push hInner]

/-- By induction on the rounds of the shorter loop. -/
theorem extends_iterate {condition : Run Bool} {body longer : Run Unit}
    (hBody : body.Extends longer) {rounds more : Nat} (h : rounds ≤ more) :
    (iterate rounds condition body).Extends (iterate more condition longer) := by
  induction rounds generalizing more with
  | zero =>
    intro m hFinished
    exact hFinished.elim
  | succ rounds ih =>
    obtain ⟨more, rfl⟩ : ∃ k, more = k + 1 := ⟨more - 1, by omega⟩
    have hLess : rounds ≤ more := by omega
    intro m hFinished
    unfold iterate at hFinished ⊢
    cases hTest : condition m with
    | error halt middle => rfl
    | ok value middle =>
      rw [hTest] at hFinished
      cases value with
      | false => rfl
      | true =>
        dsimp only at hFinished ⊢
        cases hRound : body middle with
        | error halt after =>
          rw [hRound] at hFinished
          have hInner : Ending.Finished (body middle) := by
            rw [hRound]
            exact hFinished
          rw [hBody middle hInner, hRound]
        | ok done after =>
          rw [hRound] at hFinished
          have hInner : Ending.Finished (body middle) := by
            rw [hRound]
            trivial
          rw [hBody middle hInner, hRound]
          exact ih hLess after hFinished

end Run

open Run

-- ---------------------------------------------------------------------------
-- Statements with more rounds
-- ---------------------------------------------------------------------------

section

variable {rounds more : Nat}

mutual

/-- With more rounds a statement ends wherever it did before, and in the same way. -/
theorem extends_exec (h : rounds ≤ more) :
    (s : Stmt) → (exec rounds s).Extends (exec more s)
  | .expression e => extends_refl _
  | .print e => extends_refl _
  | .varDecl name none => extends_refl _
  | .varDecl name (some e) => extends_refl _
  | .block body => extends_inNewScope (extends_execAll h body)
  | .ifElse condition thenBranch none => by
    refine extends_bind (extends_refl (test condition)) ?_
    intro value
    cases value with
    | true => exact extends_exec h thenBranch
    | false => exact extends_refl _
  | .ifElse condition thenBranch (some elseBranch) => by
    refine extends_bind (extends_refl (test condition)) ?_
    intro value
    cases value with
    | true => exact extends_exec h thenBranch
    | false => exact extends_exec h elseBranch
  | .whileLoop condition body => extends_iterate (extends_exec h body) h
  | .stray node => extends_refl _

theorem extends_execAll (h : rounds ≤ more) :
    (statements : List Stmt) → (execAll rounds statements).Extends (execAll more statements)
  | [] => extends_refl _
  | s :: rest => extends_bind (extends_exec h s) fun _ => extends_execAll h rest

end

end

-- ---------------------------------------------------------------------------
-- Expressions
-- ---------------------------------------------------------------------------

namespace Run

variable {α β : Type}

/-- A run that comes to an end on every machine. -/
def Finite (run : Run α) : Prop := ∀ m, Ending.Finished (run m)

theorem finite_bind {first : Run α} {next : α → Run β} (hFirst : first.Finite)
    (hNext : ∀ value, (next value).Finite) : (first >>= next).Finite := by
  intro m
  show Ending.Finished (EStateM.bind first next m)
  unfold EStateM.bind
  have hHere := hFirst m
  cases hRun : first m with
  | ok value middle => exact hNext value middle
  | error halt middle =>
    rw [hRun] at hHere
    exact Ending.finished_error hHere

theorem finite_ofExcept {result : Except Halt α} (h : result ≠ .error .unfinished) :
    (ofExcept result).Finite := by
  intro m
  cases result with
  | ok value => trivial
  | error halt =>
    cases halt with
    | fault f => trivial
    | defect d => trivial
    | unfinished => exact absurd rfl h

theorem finite_lookUp (name : Token) : (lookUp name).Finite := by
  intro m
  unfold lookUp
  split
  · trivial
  · trivial

theorem finite_assign (name : Token) (value : Value) : (assign name value).Finite := by
  intro m
  unfold assign
  split
  · trivial
  · trivial

end Run

/-- Operators fault or are no operators; none of them runs. -/
theorem applyUnary_ne_unfinished (operator : Token) (value : Value) :
    applyUnary operator value ≠ .error .unfinished := by
  unfold applyUnary
  split
  · split <;> simp [operatorFault]
  · simp
  · simp

theorem applyToNumbers_ne_unfinished (operator : Token) (a b : Float) :
    applyToNumbers operator a b ≠ .error .unfinished := by
  unfold applyToNumbers
  split
  case h_7 =>
    by_cases hZero : b == 0
    · rw [if_pos hZero]
      simp [operatorFault]
    · rw [if_neg hZero]
      simp
  all_goals simp

theorem applyBinary_ne_unfinished (operator : Token) (left right : Value) :
    applyBinary operator left right ≠ .error .unfinished := by
  unfold applyBinary
  split
  · simp
  · simp
  · split <;> simp [operatorFault]
  · split
    · exact applyToNumbers_ne_unfinished operator _ _
    · simp [operatorFault]

/-- There are no loops in expressions. -/
theorem finite_eval (e : Expr) : (eval e).Finite := by
  induction e with
  | literal value => exact fun m => trivial
  | grouping inner ih => exact ih
  | unary operator operand ih =>
    refine finite_bind ih ?_
    intro value
    exact finite_ofExcept (applyUnary_ne_unfinished operator value)
  | binary left operator right ihLeft ihRight =>
    refine finite_bind ihLeft ?_
    intro a
    refine finite_bind ihRight ?_
    intro b
    exact finite_ofExcept (applyBinary_ne_unfinished operator a b)
  | logical left operator right ihLeft ihRight =>
    refine finite_bind ihLeft ?_
    intro a
    show Finite (if settles operator a then pure a else eval right)
    by_cases hSettles : settles operator a
    · rw [if_pos hSettles]
      exact fun m => trivial
    · rw [if_neg hSettles]
      exact ihRight
  | «variable» name => exact finite_lookUp name
  | assign name value ih =>
    refine finite_bind ih ?_
    intro v
    refine finite_bind (finite_assign name v) ?_
    intro _
    exact fun m => trivial
  | stray node => exact fun m => trivial

-- ---------------------------------------------------------------------------
-- What runs come to
-- ---------------------------------------------------------------------------

/-- Runs by the number of rounds, each of which extends those with fewer. -/
def Steady {α : Type} (runs : Nat → Run α) : Prop :=
  ∀ ⦃rounds more : Nat⦄, rounds ≤ more → (runs rounds).Extends (runs more)

/-- With enough rounds the runs come to an end, and to this one. -/
def ComesTo {α : Type} (runs : Nat → Run α) (m : Machine) (ending : Ending α) : Prop :=
  ending.Finished ∧ ∃ rounds, runs rounds m = ending

namespace ComesTo

variable {α β : Type} {runs : Nat → Run α} {m : Machine} {ending other : Ending α}

theorem eventually (hSteady : Steady runs) (h : ComesTo runs m ending) :
    ∃ rounds, ∀ more, rounds ≤ more → runs more m = ending := by
  obtain ⟨hFinished, rounds, hRun⟩ := h
  refine ⟨rounds, ?_⟩
  intro more hMore
  rw [← hRun] at hFinished ⊢
  exact hSteady hMore m hFinished

theorem unique (hSteady : Steady runs) (h : ComesTo runs m ending)
    (h' : ComesTo runs m other) : ending = other := by
  obtain ⟨rounds, hRounds⟩ := h.eventually hSteady
  obtain ⟨rounds', hRounds'⟩ := h'.eventually hSteady
  have hHere := hRounds (max rounds rounds') (Nat.le_max_left ..)
  have hThere := hRounds' (max rounds rounds') (Nat.le_max_right ..)
  rw [← hHere, hThere]

end ComesTo

section

variable {α β : Type} {m : Machine}

/-- Without loops there is nothing to wait for. -/
theorem comesTo_const {run : Run α} (hFinite : run.Finite) {ending : Ending α} :
    ComesTo (fun _ => run) m ending ↔ run m = ending := by
  constructor
  · intro h
    obtain ⟨-, _, hRun⟩ := h
    exact hRun
  · intro h
    have hFinished : ending.Finished := by
      rw [← h]
      exact hFinite m
    exact ⟨hFinished, 0, h⟩

/-- One run after another ends where the first one halts, or where the second one ends. -/
theorem comesTo_bind {first : Nat → Run α} {next : Nat → α → Run β} (hFirst : Steady first)
    (hNext : ∀ value, Steady fun rounds => next rounds value) {ending : Ending β} :
    ComesTo (fun rounds => first rounds >>= next rounds) m ending ↔
      (∃ halt n, ComesTo first m (.error halt n) ∧ ending = .error halt n) ∨
        ∃ value n, ComesTo first m (.ok value n) ∧
          ComesTo (fun rounds => next rounds value) n ending := by
  constructor
  · intro h
    obtain ⟨hFinished, rounds, hRun⟩ := h
    have hBind : EStateM.bind (first rounds) (next rounds) m = ending := hRun
    unfold EStateM.bind at hBind
    cases hStart : first rounds m with
    | ok value n =>
      rw [hStart] at hBind
      exact .inr ⟨value, n, ⟨trivial, rounds, hStart⟩, hFinished, rounds, hBind⟩
    | error halt n =>
      rw [hStart] at hBind
      subst hBind
      have hStop : Ending.Finished (.error halt n : Ending α) := Ending.finished_error hFinished
      exact .inl ⟨halt, n, ⟨hStop, rounds, hStart⟩, rfl⟩
  · intro h
    rcases h with ⟨halt, n, ⟨hFinished, rounds, hRun⟩, rfl⟩ | ⟨value, n, hStart, hEnd⟩
    · refine ⟨Ending.finished_error hFinished, rounds, ?_⟩
      show EStateM.bind (first rounds) (next rounds) m = _
      unfold EStateM.bind
      rw [hRun]
    · -- both parts are given the larger of the two numbers
      obtain ⟨rounds, hRounds⟩ := hStart.eventually hFirst
      obtain ⟨more, hMore⟩ := hEnd.eventually (hNext value)
      refine ⟨hEnd.1, max rounds more, ?_⟩
      show EStateM.bind (first (max rounds more)) (next (max rounds more)) m = _
      unfold EStateM.bind
      rw [hRounds _ (Nat.le_max_left ..)]
      exact hMore _ (Nat.le_max_right ..)

/-- An ending inside a scope of its own, once that scope is left. -/
def Ending.leave : Ending α → Ending α
  | .ok value m => .ok value m.pop
  | .error halt m => .error halt m.pop

theorem inNewScope_eq (body : Run α) (m : Machine) :
    inNewScope body m = Ending.leave (body m.push) := by
  unfold inNewScope Ending.leave
  cases body m.push with
  | ok value n => rfl
  | error halt n => rfl

theorem Ending.finished_leave {ending : Ending α} : ending.leave.Finished ↔ ending.Finished := by
  cases ending with
  | ok value n => exact Iff.rfl
  | error halt n =>
    constructor
    · exact Ending.finished_error
    · exact Ending.finished_error

/-- A run in a scope of its own ends as it does inside, with that scope left. -/
theorem comesTo_inNewScope {body : Nat → Run α} {ending : Ending α} :
    ComesTo (fun rounds => inNewScope (body rounds)) m ending ↔
      ∃ inner, ComesTo body m.push inner ∧ ending = inner.leave := by
  constructor
  · intro h
    obtain ⟨hFinished, rounds, hRun⟩ := h
    have hLeave : Ending.leave (body rounds m.push) = ending := (inNewScope_eq ..).symm.trans hRun
    subst hLeave
    exact ⟨body rounds m.push, ⟨Ending.finished_leave.mp hFinished, rounds, rfl⟩, rfl⟩
  · intro h
    obtain ⟨inner, ⟨hFinished, rounds, hRun⟩, rfl⟩ := h
    refine ⟨Ending.finished_leave.mpr hFinished, rounds, ?_⟩
    show inNewScope (body rounds) m = inner.leave
    rw [inNewScope_eq, hRun]

end

-- ---------------------------------------------------------------------------
-- Statements
-- ---------------------------------------------------------------------------

/-- How a statement ends. -/
def Stmt.Ends (s : Stmt) : Machine → Ending Unit → Prop := ComesTo fun rounds => exec rounds s

/-- How statements end that run in order. -/
def Stmt.AllEnd (statements : List Stmt) : Machine → Ending Unit → Prop :=
  ComesTo fun rounds => execAll rounds statements

theorem steady_exec (s : Stmt) : Steady fun rounds => exec rounds s :=
  fun _ _ h => extends_exec h s

theorem steady_execAll (statements : List Stmt) :
    Steady fun rounds => execAll rounds statements :=
  fun _ _ h => extends_execAll h statements

theorem ends_unique {s : Stmt} {m : Machine} {ending other : Ending Unit}
    (h : s.Ends m ending) (h' : s.Ends m other) : ending = other :=
  ComesTo.unique (steady_exec s) h h'

theorem allEnd_unique {statements : List Stmt} {m : Machine} {ending other : Ending Unit}
    (h : Stmt.AllEnd statements m ending) (h' : Stmt.AllEnd statements m other) :
    ending = other :=
  ComesTo.unique (steady_execAll statements) h h'

/-- Statements run in order, from where the first one goes through. -/
theorem allEnd_cons_iff {s : Stmt} {rest : List Stmt} {m : Machine} {ending : Ending Unit} :
    Stmt.AllEnd (s :: rest) m ending ↔
      (∃ halt n, s.Ends m (.error halt n) ∧ ending = .error halt n) ∨
        ∃ n, s.Ends m (.ok () n) ∧ Stmt.AllEnd rest n ending := by
  have hRuns : (fun rounds => execAll rounds (s :: rest)) = fun rounds => (do
      exec rounds s
      execAll rounds rest) := by
    funext rounds
    rw [execAll]
  unfold Stmt.AllEnd
  rw [hRuns, comesTo_bind (steady_exec s) fun _ => steady_execAll rest]
  exact or_congr Iff.rfl ⟨fun ⟨(), n, h⟩ => ⟨n, h⟩, fun ⟨n, h⟩ => ⟨(), n, h⟩⟩

/-- Statements that halt do so in one of them, and those before it went through. -/
theorem exists_halting {statements : List Stmt} {m n : Machine} {halt : Halt}
    (h : Stmt.AllEnd statements m (.error halt n)) :
    ∃ earlier s later k, statements = earlier ++ s :: later ∧
      Stmt.AllEnd earlier m (.ok () k) ∧ s.Ends k (.error halt n) := by
  induction statements generalizing m with
  | nil =>
    obtain ⟨-, rounds, hRun⟩ := h
    cases hRun
  | cons s rest ih =>
    rcases allEnd_cons_iff.mp h with ⟨other, k, hHalts, hSame⟩ | ⟨k, hOk, hRest⟩
    · cases hSame
      exact ⟨[], s, rest, m, rfl, ⟨trivial, 0, rfl⟩, hHalts⟩
    · obtain ⟨earlier, t, later, k', rfl, hEarlier, hHalts⟩ := ih hRest
      exact ⟨s :: earlier, t, later, k', rfl, allEnd_cons_iff.mpr (.inr ⟨k, hOk, hEarlier⟩),
        hHalts⟩

end Scriptlet
