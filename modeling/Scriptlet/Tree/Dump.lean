import Scriptlet.Tree.Basic

/-!
# Scriptlet — dumps of syntax trees

A dump is a tree in prefix form between parentheses: the head names the node or
its operator, and the children follow from left to right. A variable is `var`
and its name, a literal is the text that `print` shows of it.

* `form`                — a head and its parts between parentheses.
* `Expr.dump`, `Stmt.dump` — the dump, or the first defect met from left to right.
* `Stray.ofExpr`, `Stray.ofStmt` — a node of one family in the place of the other.
-/

namespace Scriptlet

/-- A head and its parts between parentheses, with a space before every part. -/
def form (head : String) (parts : List String) : String :=
  "(" ++ head ++ String.join (parts.map (" " ++ ·)) ++ ")"

/-- The dump of an expression. -/
def Expr.dump : Expr → Except Defect String
  | literal value => .ok value.shown
  | grouping inner => do return form "group" [← inner.dump]
  | unary operator operand => do return form operator.lexeme [← operand.dump]
  | binary left operator right => do
    let left ← left.dump
    let right ← right.dump
    return form operator.lexeme [left, right]
  | logical left operator right => do
    let left ← left.dump
    let right ← right.dump
    return form operator.lexeme [left, right]
  | .variable name => .ok ("var " ++ name.lexeme)
  | assign name value => do return form ("assign " ++ name.lexeme) [← value.dump]
  | stray node => node.dump

mutual

/-- The dump of a statement. Parts that are left out of a statement are left out of its dump. -/
def Stmt.dump : Stmt → Except Defect String
  | expression e => do return form "expr" [← e.dump]
  | print e => do return form "print" [← e.dump]
  | varDecl name none => .ok (form ("var " ++ name.lexeme) [])
  | varDecl name (some e) => do return form ("var " ++ name.lexeme) [← e.dump]
  | block body => do return form "block" (← Stmt.dumpAll body)
  | ifElse condition thenBranch none => do
    let condition ← condition.dump
    let thenBranch ← thenBranch.dump
    return form "if" [condition, thenBranch]
  | ifElse condition thenBranch (some elseBranch) => do
    let condition ← condition.dump
    let thenBranch ← thenBranch.dump
    let elseBranch ← elseBranch.dump
    return form "if" [condition, thenBranch, elseBranch]
  | whileLoop condition body => do
    let condition ← condition.dump
    let body ← body.dump
    return form "while" [condition, body]
  | stray node => node.dump

/-- The dumps of statements in order. -/
def Stmt.dumpAll : List Stmt → Except Defect (List String)
  | [] => .ok []
  | s :: rest => do
    let first ← s.dump
    let others ← Stmt.dumpAll rest
    return first :: others

end

/-- An expression in the place of a statement. -/
def Stray.ofExpr (e : Expr) : Stray where
  kind := e.kind
  dump := e.dump

/-- A statement in the place of an expression. -/
def Stray.ofStmt (s : Stmt) : Stray where
  kind := s.kind
  dump := s.dump

end Scriptlet
