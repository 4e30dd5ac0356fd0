import Scriptlet.Proofs.Run.Likeness
import Scriptlet.Proofs.Run.ScopeDiscipline

/-!
# Scriptlet — a scope without declarations

A block opens a scope. If nothing in the block is declared in that scope, it
stays empty: names are looked up and assigned past it. So such a block runs just
as its statements do on their own.

## Results

* `lookupIn_append`, `assignIn_append` — names in inner scopes and in outer ones.
* `OneMore`                 — machines of which one has an empty scope more.
* `likeness_oneMore`        — every use of a name keeps them alike.
* `execAll_push_of_undeclared` — a scope just opened stays empty.
* `exec_block_of_undeclared` — a block that declares nothing runs as its statements do.
* `undeclared_scope_invisible` — how both end.
-/

namespace Scriptlet

open Run

-- ---------------------------------------------------------------------------
-- Chains and environments
-- ---------------------------------------------------------------------------

/-- A scope that binds nothing. -/
def Scope.empty : Scope := {}

theorem Environment.ext_scopes {env other : Environment} (h : env.scopes = other.scopes) :
    env = other := by
  obtain ⟨current, enclosing⟩ := env
  obtain ⟨current', enclosing'⟩ := other
  obtain ⟨hCurrent, hEnclosing⟩ := List.cons.inj h
  subst hCurrent hEnclosing
  rfl

/-- Assigning in an environment is assigning in its chain. -/
theorem Environment.map_scopes_assign? (env : Environment) (name : String) (value : Value) :
    (env.assign? name value).map scopes = assignIn name value env.scopes := by
  unfold assign? scopes
  rw [assignIn]
  by_cases h : env.current.binds name = true
  · rw [if_pos h, if_pos h]
    rfl
  · rw [if_neg h, if_neg h]
    cases assignIn name value env.enclosing with
    | none => rfl
    | some enclosing => rfl

theorem Environment.scopes_pop {env : Environment} {s : Scope} {rest : List Scope}
    (h : env.scopes = s :: rest) (hRest : rest ≠ []) : env.pop.scopes = rest := by
  obtain ⟨current, enclosing⟩ := env
  have hEnclosing : enclosing = rest := (List.cons.inj h).2
  subst hEnclosing
  cases enclosing with
  | nil => exact absurd rfl hRest
  | cons outer others => rfl

theorem Environment.scopes_define {env : Environment} {s : Scope} {rest : List Scope}
    (h : env.scopes = s :: rest) (name : String) (value : Value) :
    (env.define name value).scopes = s.define name value :: rest := by
  obtain ⟨current, enclosing⟩ := env
  obtain ⟨rfl, rfl⟩ := List.cons.inj h
  rfl

theorem length_assignIn {name : String} {value : Value} {scopes after : List Scope}
    (h : assignIn name value scopes = some after) : after.length = scopes.length := by
  have hNames := congrArg List.length (map_names_assignIn h)
  rwa [List.length_map, List.length_map] at hNames

theorem lookupIn_append (inner outer : List Scope) (name : String) :
    lookupIn (inner ++ outer) name = (lookupIn inner name).or (lookupIn outer name) :=
  List.findSome?_append

/-- A name is assigned in the inner scopes if one of them binds it, and else in the outer ones. -/
theorem assignIn_append (name : String) (value : Value) (inner outer : List Scope) :
    assignIn name value (inner ++ outer) =
      match assignIn name value inner with
      | some inner' => some (inner' ++ outer)
      | none => (assignIn name value outer).map (inner ++ ·) := by
  induction inner with
  | nil => simp [assignIn]
  | cons s rest ih =>
    rw [List.cons_append, assignIn, assignIn]
    by_cases h : s.binds name = true
    · rw [if_pos h, if_pos h]
      rfl
    · rw [if_neg h, if_neg h, ih]
      cases assignIn name value rest with
      | some rest' => rfl
      | none =>
        dsimp only [Option.map_none]
        rw [Option.map_map]
        rfl

/-- An empty scope binds nothing, so names are looked up past it. -/
theorem lookupIn_insert (inner outer : List Scope) (name : String) :
    lookupIn (inner ++ Scope.empty :: outer) name = lookupIn (inner ++ outer) name := by
  rw [lookupIn_append, lookupIn_append]
  rfl

/-- Names are assigned past an empty scope too, so it keeps its place. -/
theorem assignIn_insert (name : String) (value : Value) (inner outer : List Scope) :
    (assignIn name value (inner ++ outer) = none ∧
        assignIn name value (inner ++ Scope.empty :: outer) = none) ∨
      ∃ inner' outer', inner'.length = inner.length ∧ outer'.length = outer.length ∧
        assignIn name value (inner ++ outer) = some (inner' ++ outer') ∧
        assignIn name value (inner ++ Scope.empty :: outer) =
          some (inner' ++ Scope.empty :: outer') := by
  have hEmpty : assignIn name value (Scope.empty :: outer) =
      (assignIn name value outer).map (Scope.empty :: ·) := rfl
  rw [assignIn_append, assignIn_append, hEmpty]
  cases hInner : assignIn name value inner with
  | some inner' => exact .inr ⟨inner', outer, length_assignIn hInner, rfl, rfl, rfl⟩
  | none =>
    cases hOuter : assignIn name value outer with
    | none => exact .inl ⟨rfl, rfl⟩
    | some outer' => exact .inr ⟨inner, outer', rfl, length_assignIn hOuter, rfl, rfl⟩

/--
Two assignments are alike if they are in the chains: there is no binding in
either one, or the machines with the new chains are alike.
-/
theorem Run.like_assign_of_chains {operator name : Token → Token → Prop}
    {alike : Machine → Machine → Prop} {t u : Token} {value : Value} {m n : Machine}
    (hName : name t u) (hAlike : alike m n)
    (hChains : (assignIn t.lexeme value m.environment.scopes = none ∧
        assignIn u.lexeme value n.environment.scopes = none) ∨
      ∃ chain chain', assignIn t.lexeme value m.environment.scopes = some chain ∧
        assignIn u.lexeme value n.environment.scopes = some chain' ∧
        ∀ env env' : Environment, env.scopes = chain → env'.scopes = chain' →
          alike { m with environment := env } { n with environment := env' }) :
    Ending.Like operator name alike (Run.assign t value m) (Run.assign u value n) := by
  have hHere := m.environment.map_scopes_assign? t.lexeme value
  have hThere := n.environment.map_scopes_assign? u.lexeme value
  unfold Run.assign
  rcases hChains with ⟨hNone, hNone'⟩ | ⟨chain, chain', hSome, hSome', hAfter⟩
  · rw [hNone] at hHere
    rw [hNone'] at hThere
    rw [Option.map_eq_none_iff.mp hHere, Option.map_eq_none_iff.mp hThere]
    exact .error (.name hName) hAlike
  · rw [hSome] at hHere
    rw [hSome'] at hThere
    obtain ⟨env, hEnv, hScopes⟩ := Option.map_eq_some_iff.mp hHere
    obtain ⟨env', hEnv', hScopes'⟩ := Option.map_eq_some_iff.mp hThere
    rw [hEnv, hEnv']
    exact .ok (hAfter env env' hScopes hScopes')

-- ---------------------------------------------------------------------------
-- One scope more
-- ---------------------------------------------------------------------------

/--
The second machine is the first one with an empty scope more, around the given
number of scopes and inside at least one.
-/
def OneMore (depth : Nat) (m n : Machine) : Prop :=
  n.printed = m.printed ∧ ∃ inner outer, inner.length = depth ∧ outer ≠ [] ∧
    m.environment.scopes = inner ++ outer ∧ n.environment.scopes = inner ++ Scope.empty :: outer

/-- A machine and the same with a scope opened. -/
theorem oneMore_push (m : Machine) : OneMore 0 m m.push :=
  ⟨rfl, [], m.environment.scopes, rfl, List.cons_ne_nil _ _, rfl, rfl⟩

/-- Where the scope that is one more is the current one, it has just been opened. -/
theorem OneMore.eq_push {m n : Machine} (h : OneMore 0 m n) : n = m.push := by
  obtain ⟨hPrinted, inner, outer, hLength, -, hm, hn⟩ := h
  obtain rfl := List.eq_nil_of_length_eq_zero hLength
  have hScopes : n.environment.scopes = m.push.environment.scopes := by
    show n.environment.scopes = Scope.empty :: m.environment.scopes
    rw [hn, hm, List.nil_append, List.nil_append]
  have hEnvironment := Environment.ext_scopes hScopes
  obtain ⟨environment, printed⟩ := n
  obtain rfl : printed = m.printed := hPrinted
  obtain rfl : environment = m.environment.push := hEnvironment
  rfl

theorem like_lookUp_oneMore (depth : Nat) (t : Token) :
    Run.Like Eq Eq (OneMore depth) (lookUp t) (lookUp t) := by
  intro m n hMore
  obtain ⟨hPrinted, inner, outer, hLength, hOuter, hm, hn⟩ := hMore
  have hSame : n.environment.get? t.lexeme = m.environment.get? t.lexeme := by
    unfold Environment.get?
    rw [hm, hn, lookupIn_insert]
  unfold lookUp
  rw [hSame]
  cases m.environment.get? t.lexeme with
  | some value => exact .ok ⟨hPrinted, inner, outer, hLength, hOuter, hm, hn⟩
  | none => exact .error (.name rfl) ⟨hPrinted, inner, outer, hLength, hOuter, hm, hn⟩

theorem like_assign_oneMore (depth : Nat) (t : Token) (value : Value) :
    Run.Like Eq Eq (OneMore depth) (Run.assign t value) (Run.assign t value) := by
  intro m n hMore
  refine Run.like_assign_of_chains rfl hMore ?_
  obtain ⟨hPrinted, inner, outer, hLength, hOuter, hm, hn⟩ := hMore
  rw [hm, hn]
  rcases assignIn_insert t.lexeme value inner outer with
    hNone | ⟨inner', outer', hInner, hOuter', hSome, hSome'⟩
  · exact .inl hNone
  · refine .inr ⟨_, _, hSome, hSome', ?_⟩
    intro env env' hScopes hScopes'
    have hStill : outer' ≠ [] := by
      rw [← List.length_pos_iff] at hOuter ⊢
      omega
    exact ⟨hPrinted, inner', outer', hInner.trans hLength, hStill, hScopes, hScopes'⟩

/-- Only in the scope that one machine lacks a declaration would make a difference. -/
theorem OneMore.define {depth : Nat} {m n : Machine} (h : OneMore (depth + 1) m n)
    (name : String) (value : Value) :
    OneMore (depth + 1) (m.define name value) (n.define name value) := by
  obtain ⟨hPrinted, inner, outer, hLength, hOuter, hm, hn⟩ := h
  cases inner with
  | nil => cases hLength
  | cons s rest =>
    exact ⟨hPrinted, s.define name value :: rest, outer, hLength, hOuter,
      Environment.scopes_define hm name value, Environment.scopes_define hn name value⟩

theorem OneMore.push {depth : Nat} {m n : Machine} (h : OneMore depth m n) :
    OneMore (depth + 1) m.push n.push := by
  obtain ⟨hPrinted, inner, outer, hLength, hOuter, hm, hn⟩ := h
  have hPush : ∀ k : Machine, k.push.environment.scopes = Scope.empty :: k.environment.scopes :=
    fun _ => rfl
  refine ⟨hPrinted, Scope.empty :: inner, outer, congrArg (· + 1) hLength, hOuter, ?_, ?_⟩
  · rw [hPush, hm, List.cons_append]
  · rw [hPush, hn, List.cons_append]

theorem OneMore.pop {depth : Nat} {m n : Machine} (h : OneMore (depth + 1) m n) :
    OneMore depth m.pop n.pop := by
  obtain ⟨hPrinted, inner, outer, hLength, hOuter, hm, hn⟩ := h
  cases inner with
  | nil => cases hLength
  | cons s rest =>
    have hRest : rest ++ outer ≠ [] := List.append_ne_nil_of_right_ne_nil rest hOuter
    have hRest' : rest ++ Scope.empty :: outer ≠ [] :=
      List.append_ne_nil_of_right_ne_nil rest (List.cons_ne_nil _ _)
    exact ⟨hPrinted, rest, outer, Nat.succ.inj hLength, hOuter,
      Environment.scopes_pop hm hRest, Environment.scopes_pop hn hRest'⟩

/-- As long as nothing is declared in it, an empty scope makes no difference. -/
theorem likeness_oneMore : Likeness Eq Eq (fun _ => False) OneMore where
  kind := by
    rintro t _ rfl
    rfl
  lexeme := by
    rintro t _ rfl
    rfl
  lookUp := by
    rintro depth t _ rfl
    exact like_lookUp_oneMore depth t
  assign := by
    rintro depth t _ value rfl
    exact like_assign_oneMore depth t value
  define := by
    rintro depth m n t _ value rfl hDeclarable h
    cases depth with
    | zero => exact (hDeclarable rfl).elim
    | succ depth => exact h.define t.lexeme value
  print line h := ⟨congrArg (·.push line) h.1, h.2⟩
  push := OneMore.push
  pop := OneMore.pop

-- ---------------------------------------------------------------------------
-- Blocks that declare nothing
-- ---------------------------------------------------------------------------

namespace Ending

variable {α : Type} {ending other : Ending α}

/-- An ending with a scope opened in the machine that was left. -/
def enter : Ending α → Ending α
  | .ok value m => .ok value m.push
  | .error halt m => .error halt m.push

theorem leave_enter (ending : Ending α) : ending.enter.leave = ending := by
  cases ending <;> rfl

theorem enter_inj : ending.enter = other.enter ↔ ending = other := by
  constructor
  · intro h
    rw [← leave_enter ending, h, leave_enter]
  · exact congrArg enter

theorem finished_enter : ending.enter.Finished ↔ ending.Finished := by
  rw [← finished_leave, leave_enter]

end Ending

/-- In a scope just opened the statements run as they do without, and it is still empty. -/
theorem execAll_push_of_undeclared (rounds : Nat) {body : List Stmt}
    (h : Stmt.allDeclared body = []) (m : Machine) :
    execAll rounds body m.push = Ending.enter (execAll rounds body m) := by
  have hNone : 0 = 0 → ∀ x ∈ Stmt.allDeclared body, False := by
    intro _ x hx
    rw [h] at hx
    cases hx
  have hSelf : Stmt.AllLike Eq Eq Eq body body := Stmt.allLike_self (fun _ => rfl) fun _ _ => rfl
  have hLike := likeness_oneMore.like_execAll rounds 0 body hSelf hNone (oneMore_push m)
  generalize execAll rounds body m = ending at hLike ⊢
  generalize execAll rounds body m.push = inner at hLike ⊢
  cases hLike with
  | ok hMore => rw [Ending.enter, hMore.eq_push]
  | error hHalts hMore => rw [hHalts.eq_of_eq, Ending.enter, hMore.eq_push]

/-- Statements that declare nothing do not notice whether they run in a scope of their own. -/
theorem exec_block_of_undeclared (rounds : Nat) {body : List Stmt}
    (h : Stmt.allDeclared body = []) : exec rounds (.block body) = execAll rounds body := by
  funext m
  show inNewScope (execAll rounds body) m = execAll rounds body m
  rw [inNewScope_eq, execAll_push_of_undeclared rounds h, Ending.leave_enter]

/--
A scope without declarations is invisible. Statements that declare nothing outside
inner blocks end in a scope of their own just where they end without it: with the
same halt or none, the same printed lines and the same bindings in every scope; and
up to the end the scope of their own stays empty.
-/
theorem undeclared_scope_invisible {body : List Stmt} (h : ∀ s ∈ body, s.declared = [])
    (m : Machine) (ending : Ending Unit) :
    ((Stmt.block body).Ends m ending ↔ Stmt.AllEnd body m ending) ∧
      (Stmt.AllEnd body m.push ending.enter ↔ Stmt.AllEnd body m ending) := by
  have hNone : Stmt.allDeclared body = [] := List.flatMap_eq_nil_iff.mpr h
  unfold Stmt.Ends Stmt.AllEnd ComesTo
  constructor
  · simp only [exec_block_of_undeclared _ hNone]
  · simp only [execAll_push_of_undeclared _ hNone, Ending.finished_enter, Ending.enter_inj]

/--
`{ var c = a; print c; } while (a) a = nil; print y;` inside a scope, which
faults at the end.
-/
theorem undeclared_scope_invisible_faulting :
    let name (lexeme : String) : Token := { kind := .identifier, lexeme, line := 1 }
    let body : List Stmt :=
      [.block [.varDecl (name "c") (some (.variable (name "a"))), .print (.variable (name "c"))],
        .whileLoop (.variable (name "a")) (.expression (.assign (name "a") (.literal .nil))),
        .print (.variable (name "y"))]
    let machine (a : Value) (printed : Array String) : Machine :=
      { environment := { enclosing := [{ bindings := [("a", a)] }] }, printed }
    let ending : Ending Unit :=
      .error (.fault (.undefined (name "y"))) (machine .nil #["true"])
    (∀ s ∈ body, s.declared = []) ∧ (Stmt.block body).Ends (machine (.bool true) #[]) ending ∧
      Stmt.AllEnd body (machine (.bool true) #[]).push ending.enter := by
  intro name body machine ending
  have hNone : ∀ s ∈ body, s.declared = [] := by simp [body, Stmt.declared]
  have hEnds : Stmt.AllEnd body (machine (.bool true) #[]) ending := ⟨trivial, 2, rfl⟩
  obtain ⟨hBlock, hInner⟩ := undeclared_scope_invisible hNone (machine (.bool true) #[]) ending
  exact ⟨hNone, hBlock.mpr hEnds, hInner.mpr hEnds⟩

end Scriptlet
