import Scriptlet.Proofs.Run.Rounds
import Scriptlet.Proofs.Tree.Names

/-!
# Scriptlet — what a run does to the scopes

A run changes the bindings of the scopes that it sees, but not the chain of
scopes. However a statement ends, the chain is as long as it was; a scope around
the current one binds the names that it bound before, with new values at most
for those that the statement assigns to; and the current scope has kept its
names and got at most those that the statement declares outside blocks. A scope
is known by its place in the chain and by what the statement cannot change in it.

## Results

* `Run.Keeps`               — a relation between the scopes before a run and after it.
* `Environment.Follows`     — the relation by which statements are confined.
* `Environment.Kept`        — what every statement keeps by the names in it.
* `keeps_exec`, `keeps_execAll` — the scopes follow those before a statement.
* `map_names_exec_of_undeclared` — without declarations no scope gains a name.
* `exec_scope_discipline`   — the chain of scopes after a statement.
-/

namespace Scriptlet

-- ---------------------------------------------------------------------------
-- Relations that runs keep
-- ---------------------------------------------------------------------------

namespace Run

variable {α β : Type} {R : Environment → Environment → Prop}

/-- The scopes after the run are related to those before it, however it ends. -/
def Keeps (R : Environment → Environment → Prop) (run : Run α) : Prop :=
  ∀ m, R m.environment (Ending.machine (run m)).environment

section

variable [Std.Refl R]

theorem keeps_pure (value : α) : Keeps R (pure value : Run α) :=
  fun m => Std.Refl.refl m.environment

theorem keeps_throw (halt : Halt) : Keeps R (throw halt : Run α) :=
  fun m => Std.Refl.refl m.environment

theorem keeps_ofExcept (result : Except Halt α) : Keeps R (ofExcept result) := by
  cases result with
  | ok value => exact keeps_pure value
  | error halt => exact keeps_throw halt

theorem keeps_lookUp (name : Token) : Keeps R (lookUp name) := by
  intro m
  unfold lookUp
  split
  · exact Std.Refl.refl m.environment
  · exact Std.Refl.refl m.environment

theorem keeps_print (line : String) : Keeps R (modify (·.print line) : Run Unit) :=
  fun m => Std.Refl.refl m.environment

end

theorem keeps_bind [Trans R R R] {first : Run α} {next : α → Run β} (hFirst : first.Keeps R)
    (hNext : ∀ value, (next value).Keeps R) : (first >>= next).Keeps R := by
  intro m
  show R m.environment (Ending.machine (EStateM.bind first next m)).environment
  unfold EStateM.bind
  have hHere := hFirst m
  cases hRun : first m with
  | ok value middle =>
    rw [hRun] at hHere
    have hThere := hNext value middle
    exact Trans.trans hHere hThere
  | error halt middle =>
    rw [hRun] at hHere
    exact hHere

/-- By induction on the rounds; a loop that may take none has changed nothing. -/
theorem keeps_iterate [Std.Refl R] [Trans R R R] {condition : Run Bool} {body : Run Unit}
    (hCondition : condition.Keeps R) (hBody : body.Keeps R) (rounds : Nat) :
    (iterate rounds condition body).Keeps R := by
  induction rounds with
  | zero => exact fun m => Std.Refl.refl m.environment
  | succ rounds ih =>
    intro m
    unfold iterate
    have hTest := hCondition m
    cases hEnd : condition m with
    | error halt middle =>
      rw [hEnd] at hTest
      exact hTest
    | ok value middle =>
      rw [hEnd] at hTest
      cases value with
      | false => exact hTest
      | true =>
        dsimp only
        have hRound : R m.environment (Ending.machine (body middle)).environment :=
          Trans.trans hTest (hBody middle)
        cases hEnd : body middle with
        | error halt after =>
          rw [hEnd] at hRound
          exact hRound
        | ok done after =>
          rw [hEnd] at hRound
          have hRest := ih after
          exact Trans.trans hRound hRest

/-- A run in a scope of its own leaves that scope however it ends. -/
theorem machine_inNewScope (body : Run α) (m : Machine) :
    Ending.machine (inNewScope body m) = (Ending.machine (body m.push)).pop := by
  rw [inNewScope_eq]
  cases body m.push with
  | ok value inner => rfl
  | error halt inner => rfl

/-- A run in a scope of its own keeps what holds once that scope is left. -/
theorem keeps_inNewScope {S : Environment → Environment → Prop} {body : Run α}
    (hPop : ∀ {env inner : Environment}, S env.push inner → R env inner.pop)
    (hBody : body.Keeps S) : (inNewScope body).Keeps R := by
  intro m
  rw [machine_inNewScope]
  exact hPop (hBody m.push)

end Run

open Run

-- ---------------------------------------------------------------------------
-- Scopes
-- ---------------------------------------------------------------------------

/-- Assigning lists no new name in any scope. -/
theorem map_names_assignIn {name : String} {value : Value} {scopes after : List Scope}
    (h : assignIn name value scopes = some after) :
    after.map Scope.names = scopes.map Scope.names := by
  induction scopes generalizing after with
  | nil => cases h
  | cons s rest ih =>
    rw [assignIn] at h
    by_cases hBinds : s.binds name = true
    · rw [if_pos hBinds] at h
      cases h
      rw [List.map_cons, List.map_cons, Scope.names_define_of_binds hBinds]
    · rw [if_neg hBinds] at h
      obtain ⟨inner, hInner, rfl⟩ := Option.map_eq_some_iff.mp h
      rw [List.map_cons, List.map_cons, ih hInner]

/-- Assigning changes the value of no other name in any scope. -/
theorem map_get?_assignIn {name other : String} {value : Value} {scopes after : List Scope}
    (hOther : other ≠ name) (h : assignIn name value scopes = some after) :
    after.map (·.get? other) = scopes.map (·.get? other) := by
  induction scopes generalizing after with
  | nil => cases h
  | cons s rest ih =>
    rw [assignIn] at h
    by_cases hBinds : s.binds name = true
    · rw [if_pos hBinds] at h
      cases h
      rw [List.map_cons, List.map_cons, Scope.get?_define_of_ne s hOther]
    · rw [if_neg hBinds] at h
      obtain ⟨inner, hInner, rfl⟩ := Option.map_eq_some_iff.mp h
      rw [List.map_cons, List.map_cons, ih hInner]

-- ---------------------------------------------------------------------------
-- Environments that follow others
-- ---------------------------------------------------------------------------

/--
The scopes after a run that assigns to some names and declares some in the
current scope, beside the scopes before it.
-/
structure Environment.Follows (assigned declared : List String) (before after : Environment) :
    Prop where
  names : after.enclosing.map Scope.names = before.enclosing.map Scope.names
  values : ∀ name ∉ assigned,
    after.enclosing.map (·.get? name) = before.enclosing.map (·.get? name)
  currentNames : ∃ gained, after.current.names = before.current.names ++ gained ∧
    ∀ name ∈ gained, name ∈ declared
  currentValues : ∀ name ∉ assigned, name ∉ declared →
    after.current.get? name = before.current.get? name

namespace Environment.Follows

variable {assigned declared : List String}

theorem refl (env : Environment) : env.Follows assigned declared env where
  names := rfl
  values _ _ := rfl
  currentNames := ⟨[], (List.append_nil _).symm, by simp⟩
  currentValues _ _ _ := rfl

theorem trans {a b c : Environment} (hab : a.Follows assigned declared b)
    (hbc : b.Follows assigned declared c) : a.Follows assigned declared c where
  names := hbc.names.trans hab.names
  values name hName := (hbc.values name hName).trans (hab.values name hName)
  currentNames := by
    obtain ⟨first, hFirst, hFirstMem⟩ := hab.currentNames
    obtain ⟨second, hSecond, hSecondMem⟩ := hbc.currentNames
    refine ⟨first ++ second, ?_, ?_⟩
    · rw [hSecond, hFirst, List.append_assoc]
    · intro name hName
      rcases List.mem_append.mp hName with h | h
      · exact hFirstMem name h
      · exact hSecondMem name h
  currentValues name hName hDeclared :=
    (hbc.currentValues name hName hDeclared).trans (hab.currentValues name hName hDeclared)

/-- The chain is as long as it was. -/
theorem length_enclosing {before after : Environment} (h : before.Follows assigned declared after) :
    after.enclosing.length = before.enclosing.length := by
  have hMapped := congrArg List.length h.names
  rwa [List.length_map, List.length_map] at hMapped

/-- What follows the global scope is at it too. -/
theorem atGlobals {before after : Environment} (h : before.Follows assigned declared after)
    (hGlobals : before.atGlobals = true) : after.atGlobals = true := by
  have hNone : before.enclosing = [] := List.isEmpty_iff.mp hGlobals
  have hNames := h.names
  rw [hNone, List.map_nil, List.map_eq_nil_iff] at hNames
  exact List.isEmpty_iff.mpr hNames

instance : Std.Refl (Environment.Follows assigned declared) := ⟨refl⟩

instance : Trans (Environment.Follows assigned declared) (Environment.Follows assigned declared)
    (Environment.Follows assigned declared) := ⟨trans⟩

/-- A declaration adds its name to the current scope, if it is not there already. -/
theorem define (env : Environment) {name : String} (hName : name ∈ declared) (value : Value) :
    env.Follows assigned declared (env.define name value) where
  names := rfl
  values _ _ := rfl
  currentNames := by
    show ∃ gained, (env.current.define name value).names = _ ∧ _
    rw [Scope.names_define]
    by_cases hBound : name ∈ env.current.names
    · rw [if_pos hBound]
      exact ⟨[], (List.append_nil _).symm, by simp⟩
    · rw [if_neg hBound]
      exact ⟨[name], rfl, by simpa using hName⟩
  currentValues other _ hOther := by
    refine Scope.get?_define_of_ne _ ?_ value
    rintro rfl
    exact hOther hName

/-- An assignment changes the value of its name in one scope and lists no new name. -/
theorem assign {env after : Environment} {name : String} {value : Value}
    (hName : name ∈ assigned) (h : env.assign? name value = some after) :
    env.Follows assigned declared after := by
  have hOther : ∀ {other}, other ∉ assigned → other ≠ name := by
    rintro other hOther rfl
    exact hOther hName
  unfold Environment.assign? at h
  by_cases hBinds : env.current.binds name = true
  · rw [if_pos hBinds] at h
    cases h
    refine ⟨rfl, fun _ _ => rfl, ⟨[], ?_, by simp⟩, ?_⟩
    · rw [List.append_nil]
      exact Scope.names_define_of_binds hBinds value
    · intro other hNot _
      exact Scope.get?_define_of_ne _ (hOther hNot) value
  · rw [if_neg hBinds] at h
    obtain ⟨enclosing, hEnclosing, rfl⟩ := Option.map_eq_some_iff.mp h
    refine ⟨map_names_assignIn hEnclosing, ?_, ⟨[], (List.append_nil _).symm, by simp⟩, ?_⟩
    · intro other hNot
      exact map_get?_assignIn (hOther hNot) hEnclosing
    · intro other _ _
      rfl

/-- What is declared in a scope is gone once that scope is left. -/
theorem pop {inside : List String} {env inner : Environment}
    (h : env.push.Follows assigned inside inner) : env.Follows assigned declared inner.pop := by
  obtain ⟨hNames, hValues, -, -⟩ := h
  have hPush : env.push.enclosing = env.current :: env.enclosing := rfl
  rw [hPush] at hNames hValues
  obtain ⟨current, enclosing⟩ := inner
  cases enclosing with
  | nil => cases hNames
  | cons outer rest =>
    obtain ⟨hCurrent, hEnclosing⟩ := List.cons.inj hNames
    have hHead : ∀ name ∉ assigned, outer.get? name = env.current.get? name ∧
        rest.map (·.get? name) = env.enclosing.map (·.get? name) :=
      fun name hName => List.cons.inj (hValues name hName)
    refine ⟨hEnclosing, fun name hName => (hHead name hName).2, ⟨[], ?_, by simp⟩, ?_⟩
    · rw [List.append_nil]
      exact hCurrent
    · intro name hName _
      exact (hHead name hName).1

end Environment.Follows

-- ---------------------------------------------------------------------------
-- Trees
-- ---------------------------------------------------------------------------

/--
Relations between the scopes before a run and after it, one for each list of
names that may be declared in the current scope, that are kept by all that a
run can do to the scopes while it assigns to given names only.
-/
structure Environment.Kept (assigned : List String)
    (R : List String → Environment → Environment → Prop) : Prop where
  define : ∀ {declared name}, name ∈ declared → ∀ env value, R declared env (env.define name value)
  assign : ∀ {declared name env after} {value : Value}, name ∈ assigned →
    env.assign? name value = some after → R declared env after
  pop : ∀ {declared inside env inner}, R inside env.push inner → R declared env inner.pop

section

variable {assigned declared : List String} {R : List String → Environment → Environment → Prop}

theorem Environment.Kept.keeps_define (hKept : Kept assigned R) {name : String}
    (h : name ∈ declared) (value : Value) :
    Keeps (R declared) (modify (·.define name value) : Run Unit) :=
  fun m => hKept.define h m.environment value

variable [Std.Refl (R declared)] [Trans (R declared) (R declared) (R declared)]

/-- An expression keeps what assignments to its names keep. -/
theorem Environment.Kept.keeps_eval (hKept : Kept assigned R) {e : Expr}
    (h : e.assigned ⊆ assigned) : (eval e).Keeps (R declared) := by
  induction e with
  | literal value => exact keeps_pure value
  | grouping inner ih => exact ih h
  | unary operator operand ih =>
    refine keeps_bind (ih h) ?_
    intro value
    exact keeps_ofExcept _
  | binary left operator right ihLeft ihRight =>
    obtain ⟨hLeft, hRight⟩ := List.append_subset.mp h
    refine keeps_bind (ihLeft hLeft) ?_
    intro a
    refine keeps_bind (ihRight hRight) ?_
    intro b
    exact keeps_ofExcept _
  | logical left operator right ihLeft ihRight =>
    obtain ⟨hLeft, hRight⟩ := List.append_subset.mp h
    refine keeps_bind (ihLeft hLeft) ?_
    intro a
    show Keeps _ (if settles operator a then pure a else eval right)
    by_cases hSettles : settles operator a
    · rw [if_pos hSettles]
      exact keeps_pure a
    · rw [if_neg hSettles]
      exact ihRight hRight
  | «variable» name => exact keeps_lookUp name
  | assign name value ih =>
    obtain ⟨hName, hValue⟩ := List.cons_subset.mp h
    refine keeps_bind (ih hValue) ?_
    intro v
    refine keeps_bind ?_ fun _ => keeps_pure v
    intro m
    unfold Run.assign
    split
    · next environment hAssign => exact hKept.assign hName hAssign
    · exact Std.Refl.refl m.environment
  | stray node => exact keeps_throw _

theorem Environment.Kept.keeps_test (hKept : Kept assigned R) {condition : Expr}
    (h : condition.assigned ⊆ assigned) : (test condition).Keeps (R declared) :=
  keeps_bind (hKept.keeps_eval h) fun value => keeps_pure value.isTruthy

end

section

variable (rounds : Nat) {assigned : List String}
  {R : List String → Environment → Environment → Prop} [∀ names, Std.Refl (R names)]
  [∀ names, Trans (R names) (R names) (R names)]

mutual

/--
However a statement ends, the relation holds between the scopes. Inside a block
the names that its statements declare take the place of those declared around it.
-/
theorem Environment.Kept.keeps_exec (hKept : Environment.Kept assigned R)
    {declared : List String} : (s : Stmt) → s.assigned ⊆ assigned → s.declared ⊆ declared →
      (exec rounds s).Keeps (R declared)
  | .expression e, hAssigned, _ => by
    refine keeps_bind (hKept.keeps_eval hAssigned) ?_
    intro value
    exact keeps_pure ()
  | .print e, hAssigned, _ => by
    refine keeps_bind (hKept.keeps_eval hAssigned) ?_
    intro value
    exact keeps_print value.shown
  | .varDecl name none, _, hDeclared => hKept.keeps_define (List.cons_subset.mp hDeclared).1 .nil
  | .varDecl name (some e), hAssigned, hDeclared => by
    refine keeps_bind (hKept.keeps_eval hAssigned) ?_
    intro value
    exact hKept.keeps_define (List.cons_subset.mp hDeclared).1 value
  | .block body, hAssigned, _ => by
    have hBody := hKept.keeps_execAll body hAssigned
      (List.Subset.refl (Stmt.allDeclared body))
    exact keeps_inNewScope hKept.pop hBody
  | .ifElse condition thenBranch none, hAssigned, hDeclared => by
    obtain ⟨hCondition, hThen⟩ := List.append_subset.mp hAssigned
    refine keeps_bind (hKept.keeps_test hCondition) ?_
    intro value
    cases value with
    | true => exact hKept.keeps_exec thenBranch hThen hDeclared
    | false => exact keeps_pure ()
  | .ifElse condition thenBranch (some elseBranch), hAssigned, hDeclared => by
    obtain ⟨hCondition, hBranches⟩ := List.append_subset.mp hAssigned
    obtain ⟨hThen, hElse⟩ := List.append_subset.mp hBranches
    obtain ⟨hThenDeclared, hElseDeclared⟩ := List.append_subset.mp hDeclared
    refine keeps_bind (hKept.keeps_test hCondition) ?_
    intro value
    cases value with
    | true => exact hKept.keeps_exec thenBranch hThen hThenDeclared
    | false => exact hKept.keeps_exec elseBranch hElse hElseDeclared
  | .whileLoop condition body, hAssigned, hDeclared => by
    obtain ⟨hCondition, hBody⟩ := List.append_subset.mp hAssigned
    have hRound := hKept.keeps_exec body hBody hDeclared
    exact keeps_iterate (hKept.keeps_test hCondition) hRound rounds
  | .stray node, _, _ => keeps_throw _

theorem Environment.Kept.keeps_execAll (hKept : Environment.Kept assigned R)
    {declared : List String} : (statements : List Stmt) → Stmt.allAssigned statements ⊆ assigned →
      Stmt.allDeclared statements ⊆ declared →
      (execAll rounds statements).Keeps (R declared)
  | [], _, _ => keeps_pure ()
  | s :: rest, hAssigned, hDeclared => by
    obtain ⟨hHead, hTail⟩ := List.append_subset.mp hAssigned
    rw [Stmt.allDeclared_cons] at hDeclared
    obtain ⟨hHeadDeclared, hTailDeclared⟩ := List.append_subset.mp hDeclared
    refine keeps_bind (hKept.keeps_exec s hHead hHeadDeclared) ?_
    intro _
    exact hKept.keeps_execAll rest hTail hTailDeclared

end

end

theorem Environment.Follows.kept (assigned : List String) :
    Environment.Kept assigned (Environment.Follows assigned) where
  define h env value := define env h value
  assign := assign
  pop := pop

/-- However a statement ends, the scopes follow those before it. -/
theorem keeps_exec (rounds : Nat) {assigned declared : List String} (s : Stmt)
    (hAssigned : s.assigned ⊆ assigned) (hDeclared : s.declared ⊆ declared) :
    (exec rounds s).Keeps (Environment.Follows assigned declared) :=
  (Environment.Follows.kept assigned).keeps_exec rounds s hAssigned hDeclared

theorem keeps_execAll (rounds : Nat) {assigned declared : List String} (statements : List Stmt)
    (hAssigned : Stmt.allAssigned statements ⊆ assigned)
    (hDeclared : Stmt.allDeclared statements ⊆ declared) :
    (execAll rounds statements).Keeps (Environment.Follows assigned declared) :=
  (Environment.Follows.kept assigned).keeps_execAll rounds statements hAssigned hDeclared

/-- A statement that declares nothing leaves every scope with the names that it had. -/
theorem map_names_exec_of_undeclared (rounds : Nat) {s : Stmt} (h : s.declared = [])
    (m : Machine) :
    (Ending.machine (exec rounds s m)).environment.scopes.map Scope.names =
      m.environment.scopes.map Scope.names := by
  have hFollows : m.environment.Follows s.assigned [] _ :=
    keeps_exec rounds s (List.Subset.refl s.assigned) (by rw [h]; exact List.Subset.refl []) m
  obtain ⟨gained, hCurrent, hGained⟩ := hFollows.currentNames
  have hNone : gained = [] := List.eq_nil_iff_forall_not_mem.mpr fun name hName =>
    List.not_mem_nil (hGained name hName)
  rw [hNone, List.append_nil] at hCurrent
  unfold Environment.scopes
  rw [List.map_cons, List.map_cons, hCurrent, hFollows.names]

/--
The chain after a statement, whether the statement went through, faulted or
turned out defective. The scopes around the current one are the ones that were
there: as many, with the same names, and with the same values of all names that
the statement does not assign to. The current scope has kept its names, has
gained none that the statement does not declare outside blocks, and has the same
values of the names that the statement neither assigns to nor declares.
-/
theorem exec_scope_discipline (rounds : Nat) (s : Stmt) (m : Machine) :
    let before := m.environment
    let after := (Ending.machine (exec rounds s m)).environment
    after.enclosing.length = before.enclosing.length ∧
      after.enclosing.map Scope.names = before.enclosing.map Scope.names ∧
      (∃ gained, after.current.names = before.current.names ++ gained ∧
        ∀ name ∈ gained, name ∈ s.declared) ∧
      ∀ name ∉ s.assigned,
        after.enclosing.map (·.get? name) = before.enclosing.map (·.get? name) ∧
          (name ∉ s.declared → after.current.get? name = before.current.get? name) := by
  intro before after
  have hFollows : before.Follows s.assigned s.declared after :=
    keeps_exec rounds s (List.Subset.refl s.assigned) (List.Subset.refl s.declared) m
  have hLength : after.enclosing.length = before.enclosing.length := by
    have hMapped := congrArg List.length hFollows.names
    rwa [List.length_map, List.length_map] at hMapped
  refine ⟨hLength, hFollows.names, hFollows.currentNames, ?_⟩
  intro name hName
  exact ⟨hFollows.values name hName, hFollows.currentValues name hName⟩

end Scriptlet
