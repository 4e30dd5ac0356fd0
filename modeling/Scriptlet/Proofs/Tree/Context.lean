import Scriptlet.Tree.Basic

/-!
# Scriptlet — the tree around an expression

Every expression of a tree has a place in it: inside another expression, in a
clause of a statement, and with that in the statements of a block or a branch.
The place is given by what is left of the tree without the expression. Another
expression can be put there.

* `Expr.Context`       — an expression without one inside it.
* `Stmt.Context`       — a statement without an expression in it.
* `Stmt.ListContext`   — statements without an expression in one of them.
* `fill`               — the tree with an expression at the place.
-/

namespace Scriptlet

/-- An expression without one inside it. -/
inductive Expr.Context where
  | here
  | grouping (inner : Context)
  | unary (operator : Token) (inner : Context)
  | binaryLeft (inner : Context) (operator : Token) (right : Expr)
  | binaryRight (left : Expr) (operator : Token) (inner : Context)
  | logicalLeft (inner : Context) (operator : Token) (right : Expr)
  | logicalRight (left : Expr) (operator : Token) (inner : Context)
  | assign (name : Token) (inner : Context)

/-- The expression with another one at the place. -/
def Expr.Context.fill : Expr.Context → Expr → Expr
  | here, x => x
  | grouping inner, x => .grouping (inner.fill x)
  | unary operator inner, x => .unary operator (inner.fill x)
  | binaryLeft inner operator right, x => .binary (inner.fill x) operator right
  | binaryRight left operator inner, x => .binary left operator (inner.fill x)
  | logicalLeft inner operator right, x => .logical (inner.fill x) operator right
  | logicalRight left operator inner, x => .logical left operator (inner.fill x)
  | assign name inner, x => .assign name (inner.fill x)

/-- A statement without an expression in it. -/
inductive Stmt.Context where
  | expression (e : Expr.Context)
  | print (e : Expr.Context)
  | varDecl (name : Token) (initializer : Expr.Context)
  | block (front : List Stmt) (inner : Context) (back : List Stmt)
  | ifCondition (condition : Expr.Context) (thenBranch : Stmt) (elseBranch : Option Stmt)
  | ifThen (condition : Expr) (inner : Context) (elseBranch : Option Stmt)
  | ifElse (condition : Expr) (thenBranch : Stmt) (inner : Context)
  | whileCondition (condition : Expr.Context) (body : Stmt)
  | whileBody (condition : Expr) (inner : Context)

/-- The statement with an expression at the place. -/
def Stmt.Context.fill : Stmt.Context → Expr → Stmt
  | expression e, x => .expression (e.fill x)
  | print e, x => .print (e.fill x)
  | varDecl name initializer, x => .varDecl name (some (initializer.fill x))
  | block front inner back, x => .block (front ++ inner.fill x :: back)
  | ifCondition condition thenBranch elseBranch, x =>
    .ifElse (condition.fill x) thenBranch elseBranch
  | ifThen condition inner elseBranch, x => .ifElse condition (inner.fill x) elseBranch
  | ifElse condition thenBranch inner, x => .ifElse condition thenBranch (some (inner.fill x))
  | whileCondition condition body, x => .whileLoop (condition.fill x) body
  | whileBody condition inner, x => .whileLoop condition (inner.fill x)

/-- Statements without an expression in one of them. -/
structure Stmt.ListContext where
  front : List Stmt
  inner : Stmt.Context
  back : List Stmt

/-- The statements with an expression at the place. -/
def Stmt.ListContext.fill (c : Stmt.ListContext) (x : Expr) : List Stmt :=
  c.front ++ c.inner.fill x :: c.back

end Scriptlet
