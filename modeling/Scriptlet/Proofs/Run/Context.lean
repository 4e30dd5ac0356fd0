import Scriptlet.Proofs.Tree.Context
import Scriptlet.Run.Machine

/-!
# Scriptlet — expressions that do the same

What a tree does depends on an expression in it only through what that
expression does: it can be exchanged for any other that does the same from every
machine, wherever it stands. Parentheses make no difference.

## Results

* `eval_fill`               — exchanging an expression inside another one.
* `exec_fill`, `execAll_fill` — exchanging an expression in a statement.
-/

namespace Scriptlet

variable {x y : Expr}

/-- By induction on the expressions around the place. -/
theorem eval_fill (h : eval x = eval y) (c : Expr.Context) : eval (c.fill x) = eval (c.fill y) := by
  induction c with
  | here => exact h
  | grouping inner ih => exact ih
  | unary operator inner ih => rw [Expr.Context.fill, Expr.Context.fill, eval, eval, ih]
  | binaryLeft inner operator right ih =>
    rw [Expr.Context.fill, Expr.Context.fill, eval, eval, ih]
  | binaryRight left operator inner ih =>
    rw [Expr.Context.fill, Expr.Context.fill, eval, eval, ih]
  | logicalLeft inner operator right ih =>
    rw [Expr.Context.fill, Expr.Context.fill, eval, eval, ih]
  | logicalRight left operator inner ih =>
    rw [Expr.Context.fill, Expr.Context.fill, eval, eval, ih]
  | assign name inner ih => rw [Expr.Context.fill, Expr.Context.fill, eval, eval, ih]

theorem test_fill (h : eval x = eval y) (c : Expr.Context) : test (c.fill x) = test (c.fill y) := by
  unfold test
  rw [eval_fill h c]

/-- Statements that do the same can be exchanged among others. -/
theorem execAll_congr {rounds : Nat} {s t : Stmt} (h : exec rounds s = exec rounds t)
    (front back : List Stmt) :
    execAll rounds (front ++ s :: back) = execAll rounds (front ++ t :: back) := by
  induction front with
  | nil => rw [List.nil_append, List.nil_append, execAll, execAll, h]
  | cons first rest ih => rw [List.cons_append, List.cons_append, execAll, execAll, ih]

/-- By induction on the statements around the place. -/
theorem exec_fill (h : eval x = eval y) (rounds : Nat) (c : Stmt.Context) :
    exec rounds (c.fill x) = exec rounds (c.fill y) := by
  induction c with
  | expression e => rw [Stmt.Context.fill, Stmt.Context.fill, exec, exec, eval_fill h e]
  | print e => rw [Stmt.Context.fill, Stmt.Context.fill, exec, exec, eval_fill h e]
  | varDecl name e => rw [Stmt.Context.fill, Stmt.Context.fill, exec, exec, eval_fill h e]
  | block front inner back ih =>
    rw [Stmt.Context.fill, Stmt.Context.fill, exec, exec, execAll_congr ih front back]
  | ifCondition e thenBranch elseBranch =>
    cases elseBranch with
    | none => rw [Stmt.Context.fill, Stmt.Context.fill, exec, exec, test_fill h e]
    | some elseBranch => rw [Stmt.Context.fill, Stmt.Context.fill, exec, exec, test_fill h e]
  | ifThen condition inner elseBranch ih =>
    cases elseBranch with
    | none => rw [Stmt.Context.fill, Stmt.Context.fill, exec, exec, ih]
    | some elseBranch => rw [Stmt.Context.fill, Stmt.Context.fill, exec, exec, ih]
  | ifElse condition thenBranch inner ih =>
    rw [Stmt.Context.fill, Stmt.Context.fill, exec, exec, ih]
  | whileCondition e body => rw [Stmt.Context.fill, Stmt.Context.fill, exec, exec, test_fill h e]
  | whileBody condition inner ih => rw [Stmt.Context.fill, Stmt.Context.fill, exec, exec, ih]

/-- An expression can be exchanged for another that does the same. -/
theorem execAll_fill (h : eval x = eval y) (rounds : Nat) (c : Stmt.ListContext) :
    execAll rounds (c.fill x) = execAll rounds (c.fill y) :=
  execAll_congr (exec_fill h rounds c.inner) c.front c.back

end Scriptlet
