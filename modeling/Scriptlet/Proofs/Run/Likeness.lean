import Scriptlet.Proofs.Run.Rounds
import Scriptlet.Proofs.Tree.Likeness

/-!
# Scriptlet — runs that are alike

Two machines may differ and two trees may name things differently, and still the
trees run alike: they go the same way, yield the same values, and halt at the
same place if they halt. Whether two runs are alike is settled by what happens
to single bindings. A likeness says which tokens stand for each other, which
machines are alike, after how many scopes were opened, and that using a name in
one and the name that stands for it in the other keeps them alike; that trees of
the same shape run alike follows for every likeness at once. A name that stands
for no other, not even for itself, does not have to be dealt with.

## Results

* `Halt.Like`, `Ending.Like`, `Run.Like` — halts, endings and runs that are alike.
* `like_bind`, `like_inNewScope`, `like_iterate` — composition.
* `Likeness`                — machines that every use of a name keeps alike.
* `Likeness.like_eval`, `Likeness.like_exec`, `Likeness.like_execAll` — trees run alike.
* `likeness_of_text`        — every machine is like itself.
* `like_execAll_printed`    — what was printed before does not matter.
* `printed_exec`            — what was printed stays.
-/

namespace Scriptlet

section

variable {α β : Type} (operator name : Token → Token → Prop)

-- ---------------------------------------------------------------------------
-- Runs
-- ---------------------------------------------------------------------------

/-- Halts that differ in the tokens at most: that of a name, or of an operator. -/
inductive Halt.Like : Halt → Halt → Prop where
  | operator {t u : Token} {cause : FaultCause} (hTokens : operator t u)
      (hCause : cause ≠ .undefinedVariable) :
      Like (.fault { token := t, cause }) (.fault { token := u, cause })
  | name {t u : Token} (hTokens : name t u) :
      Like (.fault (.undefined t)) (.fault (.undefined u))
  | defect (d : Defect) : Like (.defect d) (.defect d)
  | unfinished : Like .unfinished .unfinished

/-- Endings with the same value or with halts that are alike, on machines that are alike. -/
inductive Ending.Like (alike : Machine → Machine → Prop) : Ending α → Ending α → Prop where
  | ok {value : α} {m n : Machine} (hMachines : alike m n) :
      Like alike (.ok value m) (.ok value n)
  | error {halt other : Halt} {m n : Machine} (hHalts : halt.Like operator name other)
      (hMachines : alike m n) : Like alike (.error halt m) (.error other n)

/-- Runs that end alike on machines that are alike. -/
def Run.Like (alike : Machine → Machine → Prop) (run other : Run α) : Prop :=
  ∀ ⦃m n : Machine⦄, alike m n → Ending.Like operator name alike (run m) (other n)

variable {operator name} {alike : Machine → Machine → Prop}

theorem Ending.Like.machine {ending other : Ending α}
    (h : Ending.Like operator name alike ending other) :
    alike (Ending.machine ending) (Ending.machine other) := by
  cases h with
  | ok hMachines => exact hMachines
  | error hHalts hMachines => exact hMachines

namespace Run

theorem like_pure (value : α) : Run.Like operator name alike (pure value) (pure value) :=
  fun _ _ h => .ok h

theorem like_throw {halt other : Halt} (hHalts : halt.Like operator name other) :
    Run.Like operator name alike (throw halt : Run α) (throw other) :=
  fun _ _ h => .error hHalts h

theorem like_bind {first other : Run α} {next further : α → Run β}
    (hFirst : Run.Like operator name alike first other)
    (hNext : ∀ value, Run.Like operator name alike (next value) (further value)) :
    Run.Like operator name alike (first >>= next) (other >>= further) := by
  intro m n hAlike
  have hHere := hFirst hAlike
  show Ending.Like operator name alike (EStateM.bind first next m)
    (EStateM.bind other further n)
  unfold EStateM.bind
  generalize first m = ending at hHere ⊢
  generalize other n = ending' at hHere ⊢
  cases hHere with
  | ok hMachines => exact hNext _ hMachines
  | error hHalts hMachines => exact .error hHalts hMachines

/-- Inside the new scopes the machines may be alike in a way of their own. -/
theorem like_inNewScope {inside : Machine → Machine → Prop} {body other : Run α}
    (hPush : ∀ {m n : Machine}, alike m n → inside m.push n.push)
    (hPop : ∀ {m n : Machine}, inside m n → alike m.pop n.pop)
    (hBody : Run.Like operator name inside body other) :
    Run.Like operator name alike (inNewScope body) (inNewScope other) := by
  intro m n hAlike
  have hInner := hBody (hPush hAlike)
  rw [inNewScope_eq, inNewScope_eq]
  generalize body m.push = ending at hInner ⊢
  generalize other n.push = ending' at hInner ⊢
  cases hInner with
  | ok hMachines => exact .ok (hPop hMachines)
  | error hHalts hMachines => exact .error hHalts (hPop hMachines)

/-- By induction on the rounds: both loops go through them together. -/
theorem like_iterate {condition other : Run Bool} {body further : Run Unit}
    (hCondition : Run.Like operator name alike condition other)
    (hBody : Run.Like operator name alike body further) (rounds : Nat) :
    Run.Like operator name alike (iterate rounds condition body)
      (iterate rounds other further) := by
  induction rounds with
  | zero => exact fun m n hAlike => .error .unfinished hAlike
  | succ rounds ih =>
    intro m n hAlike
    have hTest := hCondition hAlike
    unfold iterate
    generalize condition m = ending at hTest ⊢
    generalize other n = ending' at hTest ⊢
    cases hTest with
    | error hHalts hMachines => exact .error hHalts hMachines
    | @ok value middle middle' hMachines =>
      cases value with
      | false => exact .ok hMachines
      | true =>
        dsimp only
        have hRound := hBody hMachines
        generalize body middle = ending at hRound ⊢
        generalize further middle' = ending' at hRound ⊢
        cases hRound with
        | error hHalts hMachines => exact .error hHalts hMachines
        | ok hMachines => exact ih hMachines

end Run

end

open Run

-- ---------------------------------------------------------------------------
-- Likenesses
-- ---------------------------------------------------------------------------

/--
Machines that are alike after a number of scopes were opened. Every use of a
name and of one that stands for it keeps them alike; before a scope was opened
only some names may be declared.
-/
structure Likeness (operator name : Token → Token → Prop) (declarable : String → Prop)
    (alike : Nat → Machine → Machine → Prop) : Prop where
  kind : ∀ t u, operator t u → u.kind = t.kind
  lexeme : ∀ t u, operator t u → u.lexeme = t.lexeme
  lookUp : ∀ depth t u, name t u →
    Run.Like operator name (alike depth) (Run.lookUp t) (Run.lookUp u)
  assign : ∀ depth t u value, name t u →
    Run.Like operator name (alike depth) (Run.assign t value) (Run.assign u value)
  define : ∀ {depth m n} t u value, name t u → (depth = 0 → declarable t.lexeme) →
    alike depth m n → alike depth (m.define t.lexeme value) (n.define u.lexeme value)
  print : ∀ {depth m n} line, alike depth m n → alike depth (m.print line) (n.print line)
  push : ∀ {depth m n}, alike depth m n → alike (depth + 1) m.push n.push
  pop : ∀ {depth m n}, alike (depth + 1) m n → alike depth m.pop n.pop

namespace Likeness

variable {operator name : Token → Token → Prop} {declarable : String → Prop}
  {alike : Nat → Machine → Machine → Prop}

-- ---------------------------------------------------------------------------
-- Operators
-- ---------------------------------------------------------------------------

/-- An operator's fault is alike wherever the operator stands. -/
theorem like_operatorFault (A : Machine → Machine → Prop) {o o' : Token} (h : operator o o')
    {cause : FaultCause} (hCause : cause ≠ .undefinedVariable) :
    Run.Like operator name A (Run.ofExcept (operatorFault o cause : Except Halt Value))
      (Run.ofExcept (operatorFault o' cause)) :=
  like_throw (.operator h hCause)

section

variable (L : Likeness operator name declarable alike) (A : Machine → Machine → Prop)
  {o o' : Token} (h : operator o o')

include L h

theorem like_applyUnary (value : Value) :
    Run.Like operator name A (Run.ofExcept (applyUnary o value))
      (Run.ofExcept (applyUnary o' value)) := by
  unfold applyUnary
  rw [L.kind o o' h, L.lexeme o o' h]
  cases o.kind
  case minus =>
    cases value with
    | number x => exact like_pure _
    | _ => exact like_operatorFault A h (by decide)
  case bang => exact like_pure _
  all_goals exact like_throw (.defect _)

theorem like_applyToNumbers (a b : Float) :
    Run.Like operator name A (Run.ofExcept (applyToNumbers o a b))
      (Run.ofExcept (applyToNumbers o' a b)) := by
  unfold applyToNumbers
  rw [L.kind o o' h, L.lexeme o o' h]
  cases o.kind
  case slash =>
    by_cases hZero : b == 0
    · simp only [hZero, if_true]
      exact like_operatorFault A h (by decide)
    · simp only [hZero]
      exact like_pure _
  case greater => exact like_pure _
  case greaterEqual => exact like_pure _
  case less => exact like_pure _
  case lessEqual => exact like_pure _
  case minus => exact like_pure _
  case star => exact like_pure _
  all_goals exact like_throw (.defect _)

theorem like_applyBinary (left right : Value) :
    Run.Like operator name A (Run.ofExcept (applyBinary o left right))
      (Run.ofExcept (applyBinary o' left right)) := by
  have hNumbers := like_applyToNumbers L A h
  have hFault : ∀ {cause}, cause ≠ .undefinedVariable → Run.Like operator name A
      (Run.ofExcept (operatorFault o cause : Except Halt Value))
      (Run.ofExcept (operatorFault o' cause)) := like_operatorFault A h
  unfold applyBinary
  rw [L.kind o o' h]
  cases o.kind
  case equalEqual => exact like_pure _
  case bangEqual => exact like_pure _
  case plus =>
    dsimp only
    split
    · exact like_pure _
    · exact like_pure _
    · exact hFault (by decide)
  all_goals
    dsimp only
    split
    · exact hNumbers _ _
    · exact hFault (by decide)

theorem settles_eq (value : Value) : settles o' value = settles o value := by
  unfold settles
  rw [L.kind o o' h]

end

-- ---------------------------------------------------------------------------
-- Trees
-- ---------------------------------------------------------------------------

section

variable (L : Likeness operator name declarable alike)

include L

theorem like_eval (depth : Nat) {e e' : Expr} (h : e.Like operator name Eq e') :
    Run.Like operator name (alike depth) (eval e) (eval e') := by
  induction h with
  | @literal v w hValue =>
    rw [hValue]
    exact like_pure w
  | grouping _ ih => exact ih
  | unary hOperator _ ih =>
    refine like_bind ih ?_
    intro value
    exact like_applyUnary L _ hOperator value
  | binary hOperator _ _ ihLeft ihRight =>
    refine like_bind ihLeft ?_
    intro a
    refine like_bind ihRight ?_
    intro b
    exact like_applyBinary L _ hOperator a b
  | @logical o o' left left' right right' hOperator _ _ ihLeft ihRight =>
    refine like_bind ihLeft ?_
    intro a
    show Run.Like operator name (alike depth) (if settles o a then pure a else eval right)
      (if settles o' a then pure a else eval right')
    rw [L.settles_eq hOperator]
    by_cases hSettles : settles o a
    · rw [if_pos hSettles, if_pos hSettles]
      exact like_pure a
    · rw [if_neg hSettles, if_neg hSettles]
      exact ihRight
  | «variable» hName => exact L.lookUp depth _ _ hName
  | assign hName _ ih =>
    refine like_bind ih ?_
    intro v
    refine like_bind (L.assign depth _ _ v hName) ?_
    intro _
    exact like_pure v
  | stray node => exact like_throw (.defect _)

theorem like_test (depth : Nat) {e e' : Expr} (h : e.Like operator name Eq e') :
    Run.Like operator name (alike depth) (test e) (test e') :=
  like_bind (L.like_eval depth h) fun value => like_pure value.isTruthy

/-- A declaration of a name that may be declared here. -/
theorem like_define {depth : Nat} {n n' : Token} (hName : name n n')
    (h : depth = 0 → declarable n.lexeme) (value : Value) :
    Run.Like operator name (alike depth) (modify (·.define n.lexeme value) : Run Unit)
      (modify (·.define n'.lexeme value)) :=
  fun _ _ hAlike => .ok (L.define n n' value hName h hAlike)

end

mutual

/-- Behind every scope that is opened all names may be declared. -/
theorem like_exec (L : Likeness operator name declarable alike) (rounds : Nat) :
    (depth : Nat) → (s : Stmt) → {s' : Stmt} → s.Like operator name Eq s' →
    (depth = 0 → ∀ x ∈ s.declared, declarable x) →
      Run.Like operator name (alike depth) (exec rounds s) (exec rounds s')
  | depth, .expression e, _, hLike, _ => by
    cases hLike with
    | expression he => exact like_bind (L.like_eval depth he) fun _ => like_pure ()
  | depth, .print e, _, hLike, _ => by
    cases hLike with
    | print he =>
      refine like_bind (L.like_eval depth he) ?_
      intro value m n hAlike
      exact .ok (L.print _ hAlike)
  | depth, .varDecl n initializer, _, hLike, h => by
    have hDeclarable : depth = 0 → declarable n.lexeme :=
      fun hDepth => h hDepth n.lexeme (List.mem_singleton_self _)
    cases hLike with
    | declaration hName => exact L.like_define hName hDeclarable .nil
    | definition hName he =>
      exact like_bind (L.like_eval depth he) (L.like_define hName hDeclarable)
  | depth, .block body, _, hLike, _ => by
    cases hLike with
    | block hBody =>
      have hRun := L.like_execAll rounds (depth + 1) body hBody fun hDepth =>
        absurd hDepth (Nat.succ_ne_zero depth)
      exact like_inNewScope L.push L.pop hRun
  | depth, .ifElse condition thenBranch none, _, hLike, h => by
    cases hLike with
    | ifThen he hThen =>
      have hRun := L.like_exec rounds depth thenBranch hThen h
      refine like_bind (L.like_test depth he) ?_
      intro value
      cases value with
      | true => exact hRun
      | false => exact like_pure ()
  | depth, .ifElse condition thenBranch (some elseBranch), _, hLike, h => by
    cases hLike with
    | ifElse he hThen hElse =>
      have hRun := L.like_exec rounds depth thenBranch hThen fun hDepth x hx =>
        h hDepth x (List.mem_append_left _ hx)
      have hOther := L.like_exec rounds depth elseBranch hElse fun hDepth x hx =>
        h hDepth x (List.mem_append_right _ hx)
      refine like_bind (L.like_test depth he) ?_
      intro value
      cases value with
      | true => exact hRun
      | false => exact hOther
  | depth, .whileLoop condition body, _, hLike, h => by
    cases hLike with
    | whileLoop he hBody =>
      have hRound := L.like_exec rounds depth body hBody h
      exact like_iterate (L.like_test depth he) hRound rounds
  | depth, .stray node, _, hLike, _ => by
    cases hLike
    exact like_throw (.defect _)

theorem like_execAll (L : Likeness operator name declarable alike) (rounds : Nat) :
    (depth : Nat) → (statements : List Stmt) → {others : List Stmt} →
    Stmt.AllLike operator name Eq statements others →
    (depth = 0 → ∀ x ∈ Stmt.allDeclared statements, declarable x) →
      Run.Like operator name (alike depth) (execAll rounds statements) (execAll rounds others)
  | depth, [], _, hLike, _ => by
    cases hLike
    exact like_pure ()
  | depth, s :: rest, _, hLike, h => by
    rw [Stmt.allDeclared_cons] at h
    cases hLike with
    | cons hHead hTail =>
      have hFirst := L.like_exec rounds depth s hHead fun hDepth x hx =>
        h hDepth x (List.mem_append_left _ hx)
      have hRest := L.like_execAll rounds depth rest hTail fun hDepth x hx =>
        h hDepth x (List.mem_append_right _ hx)
      exact like_bind hFirst fun _ => hRest

end

end Likeness

-- ---------------------------------------------------------------------------
-- The same machine
-- ---------------------------------------------------------------------------

/-- Halts that are alike in the same tokens are the same. -/
theorem Halt.Like.eq_of_eq {halt other : Halt} (h : halt.Like Eq Eq other) : halt = other := by
  cases h with
  | operator hTokens _ => rw [hTokens]
  | name hTokens => rw [hTokens]
  | defect d => rfl
  | unfinished => rfl

/-- Of the tokens of a tree, a machine takes in the kinds of operators and the texts. -/
theorem likeness_of_text {operator name : Token → Token → Prop}
    (hKind : ∀ t u, operator t u → u.kind = t.kind)
    (hOperator : ∀ t u, operator t u → u.lexeme = t.lexeme)
    (hName : ∀ t u, name t u → u.lexeme = t.lexeme) :
    Likeness operator name (fun _ => True) fun _ => Eq where
  kind := hKind
  lexeme := hOperator
  lookUp := by
    rintro depth t u hTokens m _ rfl
    unfold lookUp
    rw [hName t u hTokens]
    cases m.environment.get? t.lexeme with
    | some value => exact .ok rfl
    | none => exact .error (.name hTokens) rfl
  assign := by
    rintro depth t u value hTokens m _ rfl
    unfold Run.assign
    rw [hName t u hTokens]
    cases m.environment.assign? t.lexeme value with
    | some environment => exact .ok rfl
    | none => exact .error (.name hTokens) rfl
  define := by
    rintro depth m _ t u value hTokens - rfl
    rw [hName t u hTokens]
  print := by
    rintro depth m _ line rfl
    rfl
  push := by
    rintro depth m _ rfl
    rfl
  pop := by
    rintro depth m _ rfl
    rfl

-- ---------------------------------------------------------------------------
-- What is printed
-- ---------------------------------------------------------------------------

/-- Machines with the same scopes that have printed the same lines since `start` and `other`. -/
def Machine.PrintedSince (start other : Array String) (m n : Machine) : Prop :=
  m.environment = n.environment ∧ ∃ lines : List String,
    m.printed = start ++ lines.toArray ∧ n.printed = other ++ lines.toArray

namespace Machine.PrintedSince

variable {start other : Array String} {m n : Machine}

/-- Until they print a line. -/
theorem initially (h : m.environment = n.environment) : PrintedSince m.printed n.printed m n :=
  ⟨h, [], by simp, by simp⟩

/-- The same change to the scopes of both is no change to what was printed. -/
theorem rescope (h : PrintedSince start other m n) (change : Environment → Environment) :
    PrintedSince start other { m with environment := change m.environment }
      { n with environment := change n.environment } :=
  ⟨congrArg change h.1, h.2⟩

theorem print (h : PrintedSince start other m n) (line : String) :
    PrintedSince start other (m.print line) (n.print line) := by
  obtain ⟨hScopes, lines, hHere, hThere⟩ := h
  refine ⟨hScopes, lines ++ [line], ?_, ?_⟩
  · show m.printed.push line = _
    rw [hHere]
    simp
  · show n.printed.push line = _
    rw [hThere]
    simp

end Machine.PrintedSince

/-- What was printed before has no effect on what a machine does. -/
theorem likeness_printed (start other : Array String) :
    Likeness Eq Eq (fun _ => True) fun _ => Machine.PrintedSince start other where
  kind := by
    rintro t _ rfl
    rfl
  lexeme := by
    rintro t _ rfl
    rfl
  lookUp := by
    rintro depth t _ rfl m n hPrinted
    unfold lookUp
    rw [← hPrinted.1]
    cases m.environment.get? t.lexeme with
    | some value => exact .ok hPrinted
    | none => exact .error (.name rfl) hPrinted
  assign := by
    rintro depth t _ value rfl m n hPrinted
    unfold Run.assign
    rw [← hPrinted.1]
    cases m.environment.assign? t.lexeme value with
    | some environment => exact .ok ⟨rfl, hPrinted.2⟩
    | none => exact .error (.name rfl) hPrinted
  define := by
    rintro depth m n t _ value rfl - hPrinted
    exact hPrinted.rescope (·.define t.lexeme value)
  print := by
    rintro depth m n line hPrinted
    exact hPrinted.print line
  push := by
    rintro depth m n hPrinted
    exact hPrinted.rescope Environment.push
  pop := by
    rintro depth m n hPrinted
    exact hPrinted.rescope Environment.pop

/-- Statements end alike on machines that differ in what was printed before. -/
theorem like_execAll_printed (rounds : Nat) (statements : List Stmt) {m n : Machine}
    (h : m.environment = n.environment) :
    Ending.Like Eq Eq (Machine.PrintedSince m.printed n.printed) (execAll rounds statements m)
      (execAll rounds statements n) := by
  have hSelf : Stmt.AllLike Eq Eq Eq statements statements :=
    Stmt.allLike_self (fun _ => rfl) fun _ _ => rfl
  exact (likeness_printed m.printed n.printed).like_execAll rounds 0 statements hSelf
    (fun _ _ _ => trivial) (.initially h)

/-- However a statement ends, what was printed before it stays. -/
theorem printed_exec (rounds : Nat) (s : Stmt) (m : Machine) :
    ∃ lines : List String,
      (Ending.machine (exec rounds s m)).printed = m.printed ++ lines.toArray := by
  have hSelf : Stmt.AllLike Eq Eq Eq [s] [s] := Stmt.allLike_self (fun _ => rfl) fun _ _ => rfl
  cases hSelf with
  | cons hStatement _ =>
    have hRun := (likeness_printed m.printed m.printed).like_exec rounds 0 s hStatement
      (fun _ _ _ => trivial) (.initially rfl)
    obtain ⟨-, lines, hPrinted, -⟩ := hRun.machine
    exact ⟨lines, hPrinted⟩

end Scriptlet
