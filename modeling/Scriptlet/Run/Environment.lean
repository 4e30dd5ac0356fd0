import Scriptlet.Run.Scope

/-!
# Scriptlet — environments

The scopes that a running statement sees: the current one and those around it up
to the global scope. A block pushes a scope and pops it again.

* `Environment`         — a chain of scopes that is never empty.
* `Environment.get?`, `Environment.assign?`, `Environment.define` — the three uses of a name.
* `Environment.globals` — the outermost scope.
* `pop_push`            — a block without effects leaves the environment as it was.
-/

namespace Scriptlet

/-- A chain of scopes, the innermost first. -/
structure Environment where
  current : Scope := {}
  enclosing : List Scope := []
  deriving Inhabited

namespace Environment

/-- All scopes, the innermost first. -/
def scopes (env : Environment) : List Scope := env.current :: env.enclosing

/-- The outermost scope. -/
def globals (env : Environment) : Scope := env.enclosing.getLast?.getD env.current

/-- Whether the current scope is the outermost one. -/
def atGlobals (env : Environment) : Bool := env.enclosing.isEmpty

/-- The value of a name, searched outwards. -/
def get? (env : Environment) (name : String) : Option Value := lookupIn env.scopes name

/-- Binds a name in the current scope. -/
def define (env : Environment) (name : String) (value : Value) : Environment :=
  { env with current := env.current.define name value }

/-- Rebinds a name in the nearest scope that binds it, if there is one. -/
def assign? (env : Environment) (name : String) (value : Value) : Option Environment :=
  if env.current.binds name then some (env.define name value)
  else (assignIn name value env.enclosing).map ({ env with enclosing := · })

/-- Opens an empty scope inside the current one. -/
def push (env : Environment) : Environment := { enclosing := env.scopes }

/-- Leaves the current scope; the outermost one is never left. -/
def pop (env : Environment) : Environment :=
  match env.enclosing with
  | [] => env
  | s :: rest => { current := s, enclosing := rest }

/-- A scope that is opened and left again changes nothing. -/
theorem pop_push (env : Environment) : env.push.pop = env := rfl

/-- The outermost scope is the last of the chain. -/
theorem getLast?_scopes (env : Environment) : env.scopes.getLast? = some env.globals := by
  simp [globals, scopes, List.getLast?_cons]

end Environment

end Scriptlet
