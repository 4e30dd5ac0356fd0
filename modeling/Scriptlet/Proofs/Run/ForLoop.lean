import Scriptlet.Proofs.Parse.Acceptance
import Scriptlet.Proofs.Parse.Declarations
import Scriptlet.Proofs.Run.InnerScope

/-!
# Scriptlet — `for` loops

What a `for` loop does can be said without the `while` loop that it is read as:
one scope for the whole loop, in which the initializer runs once; then, round by
round, the condition, the body and the increment, with no scope for a round. The
tree that the parser builds has a block around body and increment, and that
makes no difference, because a body declares nothing in the scope it runs in.

## Results

* `ForRounds`, `ForRun`     — the rounds of a loop, and the whole of it.
* `ends_round_iff`          — one round of body and increment.
* `ends_while_iff_forRounds` — the `while` loop goes through the rounds.
* `ends_loop_iff`           — the tree of a `for` loop runs as the loop does.
* `forStatement_runs_directly` — what the parser builds for every `for` statement.
-/

namespace Scriptlet

open Parse Run

-- ---------------------------------------------------------------------------
-- Loops without a tree of their own
-- ---------------------------------------------------------------------------

/-- The value of a clause. A clause that was left out has the value given for it. -/
def clauseValue (absent : Value) : Option Expr → Run Value
  | none => pure absent
  | some e => eval e

/--
The rounds of a `for` loop from a machine on. A round evaluates the condition,
runs the body and evaluates the increment, all in the scope of the loop. The
loop ends in front of a falsy condition, or with whatever halts one of the three.
-/
inductive ForRounds (head : ForHead) (body : Stmt) : Machine → Ending Unit → Prop where
  | conditionHalts {m n : Machine} {halt : Halt}
      (hCondition : clauseValue (.bool true) head.condition m = .error halt n) :
      ForRounds head body m (.error halt n)
  | stops {m n : Machine} {value : Value}
      (hCondition : clauseValue (.bool true) head.condition m = .ok value n)
      (hFalsy : value.isTruthy = false) :
      ForRounds head body m (.ok () n)
  | bodyHalts {m n k : Machine} {value : Value} {halt : Halt}
      (hCondition : clauseValue (.bool true) head.condition m = .ok value n)
      (hTruthy : value.isTruthy = true) (hBody : body.Ends n (.error halt k)) :
      ForRounds head body m (.error halt k)
  | incrementHalts {m n k l : Machine} {value : Value} {halt : Halt}
      (hCondition : clauseValue (.bool true) head.condition m = .ok value n)
      (hTruthy : value.isTruthy = true) (hBody : body.Ends n (.ok () k))
      (hIncrement : clauseValue .nil head.increment k = .error halt l) :
      ForRounds head body m (.error halt l)
  | again {m n k l : Machine} {value dropped : Value} {ending : Ending Unit}
      (hCondition : clauseValue (.bool true) head.condition m = .ok value n)
      (hTruthy : value.isTruthy = true) (hBody : body.Ends n (.ok () k))
      (hIncrement : clauseValue .nil head.increment k = .ok dropped l)
      (hRest : ForRounds head body l ending) :
      ForRounds head body m ending

/--
A whole `for` loop. Only an initializer opens a scope: it runs once in it, the
rounds run in it, and it is left however they end.
-/
inductive ForRun (head : ForHead) (body : Stmt) (m : Machine) : Ending Unit → Prop where
  | bare {ending : Ending Unit} (hNone : head.initializer = none)
      (hRounds : ForRounds head body m ending) :
      ForRun head body m ending
  | initializerHalts {s : Stmt} {halt : Halt} {n : Machine} (hSome : head.initializer = some s)
      (hStart : s.Ends m.push (.error halt n)) :
      ForRun head body m (.error halt n.pop)
  | initialized {s : Stmt} {n : Machine} {ending : Ending Unit}
      (hSome : head.initializer = some s) (hStart : s.Ends m.push (.ok () n))
      (hRounds : ForRounds head body n ending) :
      ForRun head body m ending.leave

-- ---------------------------------------------------------------------------
-- The parts of the tree
-- ---------------------------------------------------------------------------

/-- The condition of the `while` loop that a `for` loop is read as. -/
def Parse.ForHead.test (head : ForHead) : Expr := head.condition.getD (.literal (.bool true))

/-- The body of the `while` loop that a `for` loop is read as. -/
def Parse.ForHead.round (head : ForHead) (body : Stmt) : Stmt :=
  match head.increment with
  | some e => .block [body, .expression e]
  | none => body

theorem loop_eq (head : ForHead) (body : Stmt) :
    head.loop body = match head.initializer with
      | some s => .block [s, .whileLoop head.test (head.round body)]
      | none => .whileLoop head.test (head.round body) := rfl

theorem finite_clauseValue (absent : Value) (clause : Option Expr) :
    (clauseValue absent clause).Finite := by
  cases clause with
  | none => exact fun m => trivial
  | some e => exact finite_eval e

/-- The condition of the tree is the clause, or true. -/
theorem eval_test (head : ForHead) :
    eval head.test = clauseValue (.bool true) head.condition := by
  unfold ForHead.test
  cases head.condition with
  | none => rfl
  | some e => rfl

/-- The body of the tree is the body with the increment behind it. -/
theorem exec_round (rounds : Nat) (head : ForHead) {body : Stmt} (hBody : Undeclared body) :
    exec rounds (head.round body) = (do
      exec rounds body
      let _ ← clauseValue .nil head.increment
      pure ()) := by
  unfold ForHead.round
  cases head.increment with
  | none => exact (bind_pure_unit (x := exec rounds body)).symm
  | some e =>
    have hNone : Stmt.allDeclared [body, .expression e] = [] := by
      rw [Stmt.allDeclared_cons, hBody]
      rfl
    show exec rounds (.block [body, .expression e]) = _
    rw [exec_block_of_undeclared rounds hNone, execAll, execAll, execAll, exec]
    simp only [bind_assoc, pure_bind, clauseValue]

section

variable {head : ForHead} {body : Stmt} {m n k : Machine} {halt : Halt} {ending : Ending Unit}

theorem test_of_error (h : clauseValue (.bool true) head.condition m = .error halt n) :
    test head.test m = .error halt n := by
  show EStateM.bind (eval head.test) _ m = _
  rw [eval_test]
  unfold EStateM.bind
  rw [h]

theorem test_of_ok {value : Value} {truth : Bool}
    (h : clauseValue (.bool true) head.condition m = .ok value n)
    (hTruth : value.isTruthy = truth) : test head.test m = .ok truth n := by
  subst hTruth
  show EStateM.bind (eval head.test) _ m = _
  rw [eval_test]
  unfold EStateM.bind
  rw [h]
  rfl

/-- A run whose value is dropped. -/
theorem comesTo_dropped {run : Run Value} (hFinite : run.Finite) :
    ComesTo (fun _ => do
        let _ ← run
        pure ()) m ending ↔
      (∃ halt l, run m = .error halt l ∧ ending = .error halt l) ∨
        ∃ dropped l, run m = .ok dropped l ∧ ending = .ok () l := by
  have hUnit : Finite (do
      let _ ← run
      pure ()) := finite_bind hFinite fun _ _ => trivial
  rw [comesTo_const hUnit]
  show EStateM.bind run (fun _ => pure ()) m = ending ↔ _
  unfold EStateM.bind
  cases run m with
  | ok value l =>
    constructor
    · rintro rfl
      exact .inr ⟨value, l, rfl, rfl⟩
    · rintro (⟨halt, k, h, -⟩ | ⟨dropped, k, h, rfl⟩)
      · cases h
      · cases h
        rfl
  | error halt l =>
    constructor
    · rintro rfl
      exact .inl ⟨halt, l, rfl, rfl⟩
    · rintro (⟨other, k, h, rfl⟩ | ⟨dropped, k, h, -⟩)
      · cases h
        rfl
      · cases h

/-- One round ends where the body halts, or else as the increment does. -/
theorem ends_round_iff (hBody : Undeclared body) :
    (head.round body).Ends m ending ↔
      (∃ halt k, body.Ends m (.error halt k) ∧ ending = .error halt k) ∨
        ∃ k, body.Ends m (.ok () k) ∧
          ((∃ halt l, clauseValue .nil head.increment k = .error halt l ∧
              ending = .error halt l) ∨
            ∃ dropped l, clauseValue .nil head.increment k = .ok dropped l ∧
              ending = .ok () l) := by
  have hRuns : (fun rounds => exec rounds (head.round body)) = fun rounds => _ :=
    funext fun rounds => exec_round rounds head hBody
  have hIncrement := finite_clauseValue .nil head.increment
  unfold Stmt.Ends
  rw [hRuns, comesTo_bind (steady_exec body) fun _ _ _ _ => extends_refl _]
  simp only [comesTo_dropped hIncrement]
  exact or_congr Iff.rfl ⟨fun ⟨(), k, h⟩ => ⟨k, h⟩, fun ⟨k, h⟩ => ⟨(), k, h⟩⟩

/-- A round that halts does so in the body or, behind it, in the increment. -/
theorem halts_round (hBody : Undeclared body) (h : (head.round body).Ends m (.error halt n)) :
    body.Ends m (.error halt n) ∨
      ∃ k, body.Ends m (.ok () k) ∧ clauseValue .nil head.increment k = .error halt n := by
  rcases (ends_round_iff hBody).mp h with
    ⟨_, _, hHalts, hEq⟩ | ⟨k, hOk, ⟨_, _, hIncrement, hEq⟩ | ⟨_, _, _, hEq⟩⟩
  · cases hEq
    exact .inl hHalts
  · cases hEq
    exact .inr ⟨k, hOk, hIncrement⟩
  · cases hEq

/-- A round that goes through has done both. -/
theorem goes_through_round (hBody : Undeclared body) (h : (head.round body).Ends m (.ok () n)) :
    ∃ k dropped, body.Ends m (.ok () k) ∧
      clauseValue .nil head.increment k = .ok dropped n := by
  rcases (ends_round_iff hBody).mp h with
    ⟨_, _, _, hEq⟩ | ⟨k, hOk, ⟨_, _, _, hEq⟩ | ⟨dropped, _, hIncrement, hEq⟩⟩
  · cases hEq
  · cases hEq
  · cases hEq
    exact ⟨k, dropped, hOk, hIncrement⟩

-- ---------------------------------------------------------------------------
-- Rounds
-- ---------------------------------------------------------------------------

/-- By induction on the rounds that the `while` loop may take. -/
theorem forRounds_of_iterate (hBody : Undeclared body) {rounds limit : Nat}
    (h : iterate limit (test head.test) (exec rounds (head.round body)) m = ending)
    (hFinished : ending.Finished) : ForRounds head body m ending := by
  induction limit generalizing m with
  | zero =>
    subst h
    exact hFinished.elim
  | succ limit ih =>
    unfold iterate at h
    cases hCondition : clauseValue (.bool true) head.condition m with
    | error halt n =>
      rw [test_of_error hCondition] at h
      subst h
      exact .conditionHalts hCondition
    | ok value n =>
      cases hTruthy : value.isTruthy with
      | false =>
        rw [test_of_ok hCondition hTruthy] at h
        subst h
        exact .stops hCondition hTruthy
      | true =>
        rw [test_of_ok hCondition hTruthy] at h
        dsimp only at h
        cases hRound : exec rounds (head.round body) n with
        | error halt k =>
          rw [hRound] at h
          subst h
          have hEnds : (head.round body).Ends n (.error halt k) := ⟨hFinished, rounds, hRound⟩
          rcases halts_round hBody hEnds with hHalts | ⟨_, hOk, hIncrement⟩
          · exact .bodyHalts hCondition hTruthy hHalts
          · exact .incrementHalts hCondition hTruthy hOk hIncrement
        | ok done k =>
          rw [hRound] at h
          have hEnds : (head.round body).Ends n (.ok () k) := ⟨trivial, rounds, hRound⟩
          obtain ⟨_, _, hOk, hIncrement⟩ := goes_through_round hBody hEnds
          exact .again hCondition hTruthy hOk hIncrement (ih h)

section

variable {condition : Expr} {s : Stmt}

theorem ends_while_of_error (hTest : test condition m = .error halt n) :
    (Stmt.whileLoop condition s).Ends m (.error halt n) := by
  have hFinite : (test condition).Finite := finite_bind (finite_eval condition) fun _ _ => trivial
  have hFinished := hFinite m
  rw [hTest] at hFinished
  refine ⟨Ending.finished_error hFinished, 1, ?_⟩
  show iterate 1 (test condition) (exec 1 s) m = _
  unfold iterate
  rw [hTest]

theorem ends_while_of_false (hTest : test condition m = .ok false n) :
    (Stmt.whileLoop condition s).Ends m (.ok () n) := by
  refine ⟨trivial, 1, ?_⟩
  show iterate 1 (test condition) (exec 1 s) m = _
  unfold iterate
  rw [hTest]

theorem ends_while_of_halt (hTest : test condition m = .ok true n)
    (hRound : s.Ends n (.error halt k)) :
    (Stmt.whileLoop condition s).Ends m (.error halt k) := by
  obtain ⟨rounds, hRun⟩ := hRound.eventually (steady_exec s)
  refine ⟨hRound.1, rounds + 1, ?_⟩
  show iterate (rounds + 1) (test condition) (exec (rounds + 1) s) m = _
  unfold iterate
  rw [hTest]
  dsimp only
  rw [hRun (rounds + 1) (Nat.le_succ rounds)]

/-- The round and the rest are both given the larger one of their numbers of rounds. -/
theorem ends_while_of_true (hTest : test condition m = .ok true n)
    (hRound : s.Ends n (.ok () k)) (hRest : (Stmt.whileLoop condition s).Ends k ending) :
    (Stmt.whileLoop condition s).Ends m ending := by
  obtain ⟨rounds, hRun⟩ := hRound.eventually (steady_exec s)
  obtain ⟨more, hMore⟩ := hRest.eventually (steady_exec (.whileLoop condition s))
  let enough := max rounds more
  have hHere : exec (enough + 1) s n = .ok () k := hRun (enough + 1) (by omega)
  have hThere : iterate enough (test condition) (exec enough s) k = ending :=
    hMore enough (by omega)
  have hLonger : iterate enough (test condition) (exec (enough + 1) s) k = ending := by
    have hExtends : Extends (iterate enough (test condition) (exec enough s))
        (iterate enough (test condition) (exec (enough + 1) s)) :=
      extends_iterate (extends_exec (Nat.le_succ enough) s) (Nat.le_refl enough)
    have hSame := hExtends k
    rw [hThere] at hSame
    exact hSame hRest.1
  refine ⟨hRest.1, enough + 1, ?_⟩
  show iterate (enough + 1) (test condition) (exec (enough + 1) s) m = _
  unfold iterate
  rw [hTest]
  dsimp only
  rw [hHere]
  exact hLonger

end

/-- By induction on the rounds, each of which is one of the `while` loop. -/
theorem ends_while_of_forRounds (hBody : Undeclared body) (h : ForRounds head body m ending) :
    (Stmt.whileLoop head.test (head.round body)).Ends m ending := by
  induction h with
  | conditionHalts hCondition => exact ends_while_of_error (test_of_error hCondition)
  | stops hCondition hFalsy => exact ends_while_of_false (test_of_ok hCondition hFalsy)
  | @bodyHalts m n k value halt hCondition hTruthy hEnds =>
    have hRound : (head.round body).Ends n (.error halt k) :=
      (ends_round_iff hBody).mpr (.inl ⟨halt, k, hEnds, rfl⟩)
    exact ends_while_of_halt (test_of_ok hCondition hTruthy) hRound
  | @incrementHalts m n k l value halt hCondition hTruthy hEnds hIncrement =>
    have hRound : (head.round body).Ends n (.error halt l) :=
      (ends_round_iff hBody).mpr (.inr ⟨k, hEnds, .inl ⟨halt, l, hIncrement, rfl⟩⟩)
    exact ends_while_of_halt (test_of_ok hCondition hTruthy) hRound
  | @again m n k l value dropped ending hCondition hTruthy hEnds hIncrement hRest ih =>
    have hRound : (head.round body).Ends n (.ok () l) :=
      (ends_round_iff hBody).mpr (.inr ⟨k, hEnds, .inr ⟨dropped, l, hIncrement, rfl⟩⟩)
    exact ends_while_of_true (test_of_ok hCondition hTruthy) hRound ih

/-- The `while` loop goes through the rounds of the `for` loop. -/
theorem ends_while_iff_forRounds (hBody : Undeclared body) :
    (Stmt.whileLoop head.test (head.round body)).Ends m ending ↔ ForRounds head body m ending := by
  constructor
  · intro h
    obtain ⟨hFinished, rounds, hRun⟩ := h
    exact forRounds_of_iterate hBody hRun hFinished
  · exact ends_while_of_forRounds hBody

-- ---------------------------------------------------------------------------
-- Whole loops
-- ---------------------------------------------------------------------------

/-- A block of two statements ends where the first one halts, or else as the second one does. -/
theorem ends_pair_iff {first second : Stmt} :
    (Stmt.block [first, second]).Ends m ending ↔
      (∃ halt n, first.Ends m.push (.error halt n) ∧ ending = .error halt n.pop) ∨
        ∃ n inner, first.Ends m.push (.ok () n) ∧ second.Ends n inner ∧ ending = inner.leave := by
  have hRuns : (fun rounds => execAll rounds [first, second]) = fun rounds => (do
      exec rounds first
      exec rounds second) := by
    funext rounds
    rw [execAll, execAll, execAll, bind_pure_unit]
  have hBlock : (Stmt.block [first, second]).Ends m ending ↔
      ∃ inner, ComesTo (fun rounds => execAll rounds [first, second]) m.push inner ∧
        ending = inner.leave := comesTo_inNewScope
  rw [hBlock]
  simp only [hRuns, comesTo_bind (steady_exec first) fun _ => steady_exec second]
  constructor
  · rintro ⟨inner, ⟨halt, n, hFirst, rfl⟩ | ⟨done, n, hFirst, hSecond⟩, rfl⟩
    · exact .inl ⟨halt, n, hFirst, rfl⟩
    · exact .inr ⟨n, inner, hFirst, hSecond, rfl⟩
  · rintro (⟨halt, n, hFirst, rfl⟩ | ⟨n, inner, hFirst, hSecond, rfl⟩)
    · exact ⟨.error halt n, .inl ⟨halt, n, hFirst, rfl⟩, rfl⟩
    · exact ⟨inner, .inr ⟨(), n, hFirst, hSecond⟩, rfl⟩

/-- The tree of a `for` loop runs as the loop does. -/
theorem ends_loop_iff (hBody : Undeclared body) :
    (head.loop body).Ends m ending ↔ ForRun head body m ending := by
  rw [loop_eq]
  cases hInit : head.initializer with
  | none =>
    rw [ends_while_iff_forRounds hBody]
    constructor
    · exact .bare hInit
    · intro h
      cases h with
      | bare hNone hRounds => exact hRounds
      | initializerHalts hSome hStart => cases hInit.symm.trans hSome
      | initialized hSome hStart hRounds => cases hInit.symm.trans hSome
  | some s =>
    rw [ends_pair_iff]
    simp only [ends_while_iff_forRounds hBody]
    constructor
    · rintro (⟨halt, n, hStart, rfl⟩ | ⟨n, inner, hStart, hRounds, rfl⟩)
      · exact .initializerHalts hInit hStart
      · exact .initialized hInit hStart hRounds
    · intro h
      cases h with
      | bare hNone hRounds => cases hInit.symm.trans hNone
      | initializerHalts hSome hStart =>
        cases hInit.symm.trans hSome
        exact .inl ⟨_, _, hStart, rfl⟩
      | initialized hSome hStart hRounds =>
        cases hInit.symm.trans hSome
        exact .inr ⟨_, _, hStart, hRounds, rfl⟩

end

-- ---------------------------------------------------------------------------
-- What the parser builds
-- ---------------------------------------------------------------------------

/--
The tree of a `for` statement ends where the loop itself does, with the same
halt, the same output and the same bindings; and afterwards every scope has the
names that it had, so what the initializer declared is gone.
-/
theorem forStatement_runs_directly {tokens rest : List Token} {s : Stmt}
    (hRead : (forStatement tokens).Reads s rest) :
    ∃ head after body, (forHead tokens).Reads head after ∧ (statement after).Reads body rest ∧
      ∀ (m : Machine) (ending : Ending Unit),
        (s.Ends m ending ↔ ForRun head body m ending) ∧
          (s.Ends m ending → ending.machine.environment.scopes.map Scope.names =
            m.environment.scopes.map Scope.names) := by
  obtain ⟨head, after, body, hHead, hBodyRead, rfl⟩ := reads_forStatement.mp hRead
  have hBody : Undeclared body := by
    obtain ⟨hShorter, hDone⟩ := hBodyRead
    have hYields := undeclared_statement after
    rw [hDone] at hYields
    exact hYields
  refine ⟨head, after, body, hHead, hBodyRead, ?_⟩
  intro m ending
  refine ⟨ends_loop_iff hBody, ?_⟩
  rintro ⟨-, rounds, rfl⟩
  exact map_names_exec_of_undeclared rounds (declared_loop head hBody) m

/-- `(var a = true; a; a = nil) print a;` behind a `for`, up to the end of the file. -/
def flagLoop : List Token :=
  [word .leftParen "(", word .varKw "var", word .identifier "a", word .equal "=",
    word .trueKw "true", word .semicolon ";", word .identifier "a", word .semicolon ";",
    word .identifier "a", word .equal "=", word .nilKw "nil", word .rightParen ")",
    word .printKw "print", word .identifier "a", word .semicolon ";", word .eof ""]

/-- Its tree. -/
def flagTree : Stmt :=
  .block [.varDecl (word .identifier "a") (some (.literal (.bool true))),
    .whileLoop (.variable (word .identifier "a"))
      (.block [.print (.variable (word .identifier "a")),
        .expression (.assign (word .identifier "a") (.literal .nil))])]

theorem forStatement_runs_directly_flag :
    (forStatement flagLoop).Reads flagTree [word .eof ""] ∧
      ∃ head body, (∀ m ending, flagTree.Ends m ending ↔ ForRun head body m ending) ∧
        ForRun head body {} (.ok () { printed := #["true"] }) := by
  have hRead : (forStatement flagLoop).Reads flagTree [word .eof ""] :=
    ⟨⟨⟨flagLoop.dropLast, rfl⟩, by decide⟩, by cbv⟩
  obtain ⟨head, after, body, -, -, hRuns⟩ := forStatement_runs_directly hRead
  refine ⟨hRead, head, body, fun m ending => (hRuns m ending).1, ?_⟩
  have hEnds : flagTree.Ends {} (.ok () { printed := #["true"] }) := ⟨trivial, 2, by cbv⟩
  exact (hRuns _ _).1.mp hEnds

end Scriptlet
