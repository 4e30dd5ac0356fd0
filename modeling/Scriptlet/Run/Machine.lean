import Scriptlet.Run.Environment
import Scriptlet.Run.Operator

/-!
# Scriptlet — running trees

A run changes a machine: the scopes and the lines printed so far. Whatever ends
a run early, the machine keeps what was printed and bound up to then, and every
block leaves the scope that it opened.

A loop is given a number of rounds that it may take; the number only tells a run
that goes on for ever from one that ends.

## Results

* `eval`              — the value of an expression.
* `exec`, `execAll`   — the effect of statements.
* `iterate`           — the rounds of a loop.
* `inNewScope`        — a run inside a scope of its own.
-/

namespace Scriptlet

/-- The scopes and the lines printed so far. -/
structure Machine where
  environment : Environment := {}
  printed : Array String := #[]
  deriving Inhabited

namespace Machine

/-- Prints a line. -/
def print (m : Machine) (line : String) : Machine := { m with printed := m.printed.push line }

/-- The printed lines as one text. -/
def text (m : Machine) : String := m.printed.foldl (fun written l => written ++ l ++ "\n") ""

/-- The machine with nothing printed yet. -/
def drained (m : Machine) : Machine := { m with printed := #[] }

/-- Binds a name in the current scope. -/
def define (m : Machine) (name : String) (value : Value) : Machine :=
  { m with environment := m.environment.define name value }

/-- Opens a scope. -/
def push (m : Machine) : Machine := { m with environment := m.environment.push }

/-- Leaves a scope. -/
def pop (m : Machine) : Machine := { m with environment := m.environment.pop }

end Machine

/-- A run: it changes the machine and ends with a value or early. -/
abbrev Run := EStateM Halt Machine

namespace Run

/-- A result that does not touch the machine. -/
def ofExcept {α : Type} : Except Halt α → Run α
  | .ok value => pure value
  | .error halt => throw halt

/-- The value of a name. -/
def lookUp (name : Token) : Run Value := fun m =>
  match m.environment.get? name.lexeme with
  | some value => .ok value m
  | none => .error (.fault (.undefined name)) m

/-- Assigns to a name. -/
def assign (name : Token) (value : Value) : Run Unit := fun m =>
  match m.environment.assign? name.lexeme value with
  | some environment => .ok () { m with environment }
  | none => .error (.fault (.undefined name)) m

/-- Runs inside a scope of its own, which is left however the run ends. -/
def inNewScope {α : Type} (body : Run α) : Run α := fun m =>
  match body m.push with
  | .ok value m => .ok value m.pop
  | .error halt m => .error halt m.pop

/-- Runs `body` as long as `condition` yields true, for at most the given number of rounds. -/
def iterate (rounds : Nat) (condition : Run Bool) (body : Run Unit) : Run Unit := fun m =>
  match rounds with
  | 0 => .error .unfinished m
  | rounds + 1 =>
    match condition m with
    | .error halt m => .error halt m
    | .ok false m => .ok () m
    | .ok true m =>
      match body m with
      | .error halt m => .error halt m
      | .ok () m => iterate rounds condition body m

end Run

/-- The value of an expression. Operands are evaluated from left to right. -/
def eval : Expr → Run Value
  | .literal value => pure value
  | .grouping inner => eval inner
  | .unary operator operand => do
    let value ← eval operand
    Run.ofExcept (applyUnary operator value)
  | .binary left operator right => do
    let a ← eval left
    let b ← eval right
    Run.ofExcept (applyBinary operator a b)
  | .logical left operator right => do
    let a ← eval left
    if settles operator a then pure a else eval right
  | .variable name => Run.lookUp name
  | .assign name value => do
    let v ← eval value
    Run.assign name v
    pure v
  | .stray node => throw (.defect (.notExpression node.kind))

/-- Whether an expression yields a true value. -/
def test (condition : Expr) : Run Bool := do
  let value ← eval condition
  pure value.isTruthy

mutual

/-- The effect of a statement, every loop of which may take the given number of rounds. -/
def exec (rounds : Nat) : Stmt → Run Unit
  | .expression e => do
    let _ ← eval e
    pure ()
  | .print e => do
    let value ← eval e
    modify (·.print value.shown)
  | .varDecl name none => modify (·.define name.lexeme .nil)
  | .varDecl name (some e) => do
    let value ← eval e
    modify (·.define name.lexeme value)
  | .block body => Run.inNewScope (execAll rounds body)
  | .ifElse condition thenBranch none => do
    if ← test condition then exec rounds thenBranch
  | .ifElse condition thenBranch (some elseBranch) => do
    if ← test condition then exec rounds thenBranch else exec rounds elseBranch
  | .whileLoop condition body => Run.iterate rounds (test condition) (exec rounds body)
  | .stray node => throw (.defect (.notStatement node.kind))

/-- The effect of statements in order. -/
def execAll (rounds : Nat) : List Stmt → Run Unit
  | [] => pure ()
  | s :: rest => do
    exec rounds s
    execAll rounds rest

end

end Scriptlet
