import Scriptlet.Proofs.Run.InnerScope

/-!
# Scriptlet — shadowed variables

While a scope binds a name, the bindings of that name further out are out of
reach: look-ups stop at the scope and so do assignments. The scope keeps the
name as long as it is in the chain, and a run that starts inside it leaves every
scope that it opens. So however the run ends, the name has outside the scope
what it had there.

## Results

* `Shadowed`                — a scope at a given place that binds a name.
* `Shadowed.assignIn`       — an assignment stops at that scope or inside it.
* `Environment.Shields`     — what is shadowed before is shadowed after.
* `Environment.Shields.kept` — whatever statements do to the scopes keeps it.
* `shadowed_out_of_reach`   — no statement changes a shadowed variable.
-/

namespace Scriptlet

open Run

-- ---------------------------------------------------------------------------
-- A scope that binds the name
-- ---------------------------------------------------------------------------

/--
The scope inside which there are `depth` others binds the name, and the scopes
around it have the given bindings of it.
-/
def Shadowed (x : String) (depth : Nat) (outside : List (Option Value)) (scopes : List Scope) :
    Prop :=
  ∃ inner k outer, scopes = inner ++ k :: outer ∧ inner.length = depth ∧ k.binds x = true ∧
    outer.map (·.get? x) = outside

theorem Scope.binds_define_self (s : Scope) (name : String) (value : Value) :
    (s.define name value).binds name = true := by
  simp [binds, get?_define]

theorem Scope.binds_define {s : Scope} {x : String} (h : s.binds x = true) (name : String)
    (value : Value) : (s.define name value).binds x = true := by
  by_cases hName : x = name
  · rw [hName]
    exact s.binds_define_self name value
  · unfold binds
    rw [get?_define_of_ne s hName]
    exact h

namespace Shadowed

variable {x : String} {depth : Nat} {outside : List (Option Value)} {scopes after : List Scope}

/-- The current scope is the shadowing one or lies inside it. -/
theorem define {s : Scope} {rest : List Scope} (h : Shadowed x depth outside (s :: rest))
    (name : String) (value : Value) :
    Shadowed x depth outside (s.define name value :: rest) := by
  obtain ⟨inner, k, outer, hScopes, hDepth, hBinds, hOutside⟩ := h
  cases inner with
  | nil =>
    obtain ⟨rfl, rfl⟩ := List.cons.inj hScopes
    exact ⟨[], _, _, rfl, hDepth, Scope.binds_define hBinds name value, hOutside⟩
  | cons first inner =>
    obtain ⟨rfl, rfl⟩ := List.cons.inj hScopes
    exact ⟨_ :: inner, k, outer, rfl, hDepth, hBinds, hOutside⟩

/--
An assignment that gets past the shadowing scope is one to another name; one to
the name itself stops there at the latest.
-/
theorem assignIn {name : String} {value : Value} (h : Shadowed x depth outside scopes)
    (hAssign : Scriptlet.assignIn name value scopes = some after) :
    Shadowed x depth outside after := by
  obtain ⟨inner, k, outer, rfl, hDepth, hBinds, hOutside⟩ := h
  rw [assignIn_append] at hAssign
  cases hInner : Scriptlet.assignIn name value inner with
  | some inner' =>
    rw [hInner] at hAssign
    obtain rfl := Option.some.inj hAssign
    exact ⟨inner', k, outer, rfl, (length_assignIn hInner).trans hDepth, hBinds, hOutside⟩
  | none =>
    rw [hInner] at hAssign
    obtain ⟨reached, hReached, rfl⟩ := Option.map_eq_some_iff.mp hAssign
    rw [Scriptlet.assignIn] at hReached
    by_cases hHere : k.binds name = true
    · rw [if_pos hHere] at hReached
      obtain rfl := Option.some.inj hReached
      exact ⟨inner, _, outer, rfl, hDepth, Scope.binds_define hBinds name value, hOutside⟩
    · rw [if_neg hHere] at hReached
      obtain ⟨outer', hOuter, rfl⟩ := Option.map_eq_some_iff.mp hReached
      have hOther : x ≠ name := by
        rintro rfl
        exact hHere hBinds
      refine ⟨inner, k, outer', rfl, hDepth, hBinds, ?_⟩
      rw [map_get?_assignIn hOther hOuter, hOutside]

theorem push (h : Shadowed x depth outside scopes) (s : Scope) :
    Shadowed x (depth + 1) outside (s :: scopes) := by
  obtain ⟨inner, k, outer, rfl, hDepth, hBinds, hOutside⟩ := h
  exact ⟨s :: inner, k, outer, rfl, congrArg (· + 1) hDepth, hBinds, hOutside⟩

/-- A scope inside the shadowing one can be left. -/
theorem pop {env : Environment} (h : Shadowed x (depth + 1) outside env.scopes) :
    Shadowed x depth outside env.pop.scopes := by
  obtain ⟨inner, k, outer, hScopes, hDepth, hBinds, hOutside⟩ := h
  cases inner with
  | nil => cases hDepth
  | cons first inner =>
    have hSome : inner ++ k :: outer ≠ [] :=
      List.append_ne_nil_of_right_ne_nil inner (List.cons_ne_nil _ _)
    exact ⟨inner, k, outer, Environment.scopes_pop hScopes hSome, Nat.succ.inj hDepth, hBinds,
      hOutside⟩

end Shadowed

-- ---------------------------------------------------------------------------
-- Runs inside the scope
-- ---------------------------------------------------------------------------

/-- Wherever the name is shadowed before, it is shadowed after, by a scope at the same place. -/
def Environment.Shields (x : String) (before after : Environment) : Prop :=
  ∀ {depth outside}, Shadowed x depth outside before.scopes → Shadowed x depth outside after.scopes

namespace Environment.Shields

variable {x : String}

instance : Std.Refl (Shields x) := ⟨fun _ _ _ h => h⟩

instance : Trans (Shields x) (Shields x) (Shields x) := ⟨fun hab hbc _ _ h => hbc (hab h)⟩

theorem assign {env after : Environment} {name : String} {value : Value}
    (h : env.assign? name value = some after) : Shields x env after := by
  intro depth outside hShadowed
  have hChain := env.map_scopes_assign? name value
  rw [h] at hChain
  exact hShadowed.assignIn hChain.symm

/-- Declarations and assignments of any names, and scopes of their own for both. -/
theorem kept (x : String) (assigned : List String) :
    Environment.Kept assigned fun _ => Shields x where
  define _ _ _ := fun h => h.define _ _
  assign _ hAssign := assign hAssign
  pop hInner := fun h => (hInner (h.push _)).pop

end Environment.Shields

theorem shields_exec (x : String) (rounds : Nat) (s : Stmt) :
    (exec rounds s).Keeps (Environment.Shields x) :=
  (Environment.Shields.kept x s.assigned).keeps_exec rounds s (List.Subset.refl s.assigned)
    (List.Subset.refl s.declared)

theorem shields_execAll (x : String) (rounds : Nat) (statements : List Stmt) :
    (execAll rounds statements).Keeps (Environment.Shields x) :=
  (Environment.Shields.kept x _).keeps_execAll rounds statements
    (List.Subset.refl (Stmt.allAssigned statements))
    (List.Subset.refl (Stmt.allDeclared statements))

-- ---------------------------------------------------------------------------
-- Blocks that declare the name first
-- ---------------------------------------------------------------------------

/-- A declaration that goes through has bound its name in the current scope. -/
theorem binds_of_exec_varDecl {rounds : Nat} {name : Token} {initializer : Option Expr}
    {m after : Machine} (h : exec rounds (.varDecl name initializer) m = .ok () after) :
    after.environment.current.binds name.lexeme = true := by
  cases initializer with
  | none =>
    cases h
    exact Scope.binds_define_self _ _ _
  | some e =>
    have hBind : EStateM.bind (eval e) (fun value => modify (·.define name.lexeme value)) m =
        .ok () after := h
    unfold EStateM.bind at hBind
    cases hEval : eval e m with
    | error halt middle =>
      rw [hEval] at hBind
      cases hBind
    | ok value middle =>
      rw [hEval] at hBind
      cases hBind
      exact Scope.binds_define_self _ _ _

/-- What follows a declaration in a block leaves the name outside as the initializer did. -/
theorem map_get?_exec_block {rounds : Nat} {name : Token} {initializer : Option Expr}
    {m after : Machine} (h : exec rounds (.varDecl name initializer) m.push = .ok () after)
    (rest : List Stmt) :
    (Ending.machine
      (exec rounds (.block (.varDecl name initializer :: rest)) m)).environment.scopes.map
        (·.get? name.lexeme) = after.environment.enclosing.map (·.get? name.lexeme) := by
  have hSome : after.environment.enclosing ≠ [] := by
    have hFollows := keeps_exec rounds (.varDecl name initializer) (List.Subset.refl _)
      (List.Subset.refl _) m.push
    rw [h] at hFollows
    have hNames := hFollows.names
    intro hNone
    rw [Ending.machine, hNone] at hNames
    cases hNames
  have hShadowed : Shadowed name.lexeme 0 (after.environment.enclosing.map (·.get? name.lexeme))
      after.environment.scopes :=
    ⟨[], _, _, rfl, rfl, binds_of_exec_varDecl h, rfl⟩
  have hRun : execAll rounds (.varDecl name initializer :: rest) m.push =
      execAll rounds rest after := by
    show EStateM.bind _ _ m.push = _
    unfold EStateM.bind
    rw [h]
  obtain ⟨inner, k, outer, hScopes, hInner, -, hOutside⟩ :=
    shields_execAll name.lexeme rounds rest after hShadowed
  obtain rfl := List.eq_nil_of_length_eq_zero hInner
  have hOuter : outer ≠ [] := by
    rintro rfl
    exact hSome (List.map_eq_nil_iff.mp hOutside.symm)
  have hLeft : (Ending.machine
      (exec rounds (.block (.varDecl name initializer :: rest)) m)).environment.scopes = outer := by
    rw [exec, machine_inNewScope, hRun]
    exact Environment.scopes_pop hScopes hOuter
  rw [hLeft, hOutside]

/--
A shadowed variable is out of reach. Whatever statement is run with the scope
that binds the name as the current one or around it, and however it ends, the
scope is still at its place and still binds the name, and the scopes outside it
have the bindings of the name that they had. So in a block that declares the
name first, only the initializer can change that name outside.
-/
theorem shadowed_out_of_reach (x : String) (rounds : Nat) (m : Machine) :
    (∀ (s : Stmt) {inner : List Scope} {k : Scope} {outer : List Scope},
      m.environment.scopes = inner ++ k :: outer → k.binds x = true →
        ∃ inner' k' outer',
          (Ending.machine (exec rounds s m)).environment.scopes = inner' ++ k' :: outer' ∧
            inner'.length = inner.length ∧ k'.binds x = true ∧
            outer'.map (·.get? x) = outer.map (·.get? x)) ∧
      ∀ (name : Token) (initializer : Option Expr) (rest : List Stmt) {after : Machine},
        name.lexeme = x → exec rounds (.varDecl name initializer) m.push = .ok () after →
          (Ending.machine
            (exec rounds (.block (.varDecl name initializer :: rest)) m)).environment.scopes.map
              (·.get? x) = after.environment.enclosing.map (·.get? x) := by
  refine ⟨?_, ?_⟩
  · intro s inner k outer hScopes hBinds
    have hBefore : Shadowed x inner.length (outer.map (·.get? x)) m.environment.scopes :=
      ⟨inner, k, outer, hScopes, rfl, hBinds, rfl⟩
    exact shields_exec x rounds s m hBefore
  · rintro name initializer rest after rfl hDeclared
    exact map_get?_exec_block hDeclared rest

/--
`{ x = nil; print y; }`, which faults, and `{ var x = x = nil; x = true; }`, both
inside a scope that binds `x`.
-/
theorem shadowed_out_of_reach_faulting :
    let x : Token := { kind := .identifier, lexeme := "x", line := 1 }
    let y : Token := { kind := .identifier, lexeme := "y", line := 1 }
    let k : Scope := { bindings := [("x", .bool true)] }
    let globals : Scope := { bindings := [("x", .bool false)] }
    let m : Machine := { environment := { current := {}, enclosing := [k, globals] } }
    let faulting : Stmt := .block [.expression (.assign x (.literal .nil)), .print (.variable y)]
    let initializer : Option Expr := some (.assign x (.literal .nil))
    let shadowing : Stmt :=
      .block [.varDecl x initializer, .expression (.assign x (.literal (.bool true)))]
    (∃ inner k' outer, (Ending.machine (exec 0 faulting m)).environment.scopes =
      inner ++ k' :: outer ∧ inner.length = 1 ∧ k'.binds "x" = true ∧
        outer.map (·.get? "x") = [some (.bool false)]) ∧
      (Ending.machine (exec 0 shadowing m)).environment.scopes.map (·.get? "x") =
        [none, some .nil, some (.bool false)] := by
  intro x y k globals m faulting initializer shadowing
  obtain ⟨hStatement, hBlock⟩ := shadowed_out_of_reach "x" 0 m
  have hScopes : m.environment.scopes = [Scope.empty] ++ k :: [globals] := rfl
  refine ⟨hStatement faulting hScopes rfl, ?_⟩
  have hDeclared : exec 0 (.varDecl x initializer) m.push =
      .ok () (Ending.machine (exec 0 (.varDecl x initializer) m.push)) := rfl
  rw [hBlock x initializer _ rfl hDeclared]
  rfl

end Scriptlet
