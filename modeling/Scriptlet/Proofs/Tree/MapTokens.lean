import Scriptlet.Tree.Basic

/-!
# Scriptlet — trees with other tokens

A tree keeps tokens in two roles: as operators and as names. Replacing them, in
each role by a function of its own, leaves the shape of the tree and its
literals as they are.

* `Expr.mapTokens`, `Stmt.mapTokens`, `Stmt.mapAllTokens` — trees with tokens replaced.
* `mapTokens_id`, `mapAllTokens_id` — replacing tokens by themselves changes nothing.
-/

namespace Scriptlet

/-- An expression with its operators and its names replaced. -/
def Expr.mapTokens (operator name : Token → Token) : Expr → Expr
  | literal value => literal value
  | grouping inner => grouping (inner.mapTokens operator name)
  | unary o operand => unary (operator o) (operand.mapTokens operator name)
  | binary left o right =>
    binary (left.mapTokens operator name) (operator o) (right.mapTokens operator name)
  | logical left o right =>
    logical (left.mapTokens operator name) (operator o) (right.mapTokens operator name)
  | .variable n => .variable (name n)
  | assign n value => assign (name n) (value.mapTokens operator name)
  | stray node => stray node

mutual

/-- A statement with the operators and the names in it replaced. -/
def Stmt.mapTokens (operator name : Token → Token) : Stmt → Stmt
  | expression e => expression (e.mapTokens operator name)
  | print e => print (e.mapTokens operator name)
  | varDecl n none => varDecl (name n) none
  | varDecl n (some e) => varDecl (name n) (some (e.mapTokens operator name))
  | block body => block (Stmt.mapAllTokens operator name body)
  | ifElse condition thenBranch none =>
    ifElse (condition.mapTokens operator name) (thenBranch.mapTokens operator name) none
  | ifElse condition thenBranch (some elseBranch) =>
    ifElse (condition.mapTokens operator name) (thenBranch.mapTokens operator name)
      (some (elseBranch.mapTokens operator name))
  | whileLoop condition body =>
    whileLoop (condition.mapTokens operator name) (body.mapTokens operator name)
  | stray node => stray node

/-- Statements with the operators and the names in them replaced. -/
def Stmt.mapAllTokens (operator name : Token → Token) : List Stmt → List Stmt
  | [] => []
  | s :: rest => s.mapTokens operator name :: Stmt.mapAllTokens operator name rest

end

theorem Stmt.mapAllTokens_eq_map (operator name : Token → Token) (statements : List Stmt) :
    Stmt.mapAllTokens operator name statements = statements.map (·.mapTokens operator name) := by
  induction statements with
  | nil => rfl
  | cons s rest ih => rw [Stmt.mapAllTokens, List.map_cons, ih]

theorem Expr.mapTokens_id (e : Expr) : e.mapTokens id id = e := by
  induction e with
  | literal value => rfl
  | grouping inner ih => rw [mapTokens, ih]
  | unary o operand ih => rw [mapTokens, ih, id]
  | binary left o right ihLeft ihRight => rw [mapTokens, ihLeft, ihRight, id]
  | logical left o right ihLeft ihRight => rw [mapTokens, ihLeft, ihRight, id]
  | «variable» n => rfl
  | assign n value ih => rw [mapTokens, ih, id]
  | stray node => rfl

mutual

theorem Stmt.mapTokens_id : (s : Stmt) → s.mapTokens id id = s
  | .expression e => by rw [Stmt.mapTokens, Expr.mapTokens_id]
  | .print e => by rw [Stmt.mapTokens, Expr.mapTokens_id]
  | .varDecl n none => rfl
  | .varDecl n (some e) => by rw [Stmt.mapTokens, Expr.mapTokens_id, id]
  | .block body => by rw [Stmt.mapTokens, Stmt.mapAllTokens_id body]
  | .ifElse condition thenBranch none => by
    rw [Stmt.mapTokens, Expr.mapTokens_id, Stmt.mapTokens_id thenBranch]
  | .ifElse condition thenBranch (some elseBranch) => by
    rw [Stmt.mapTokens, Expr.mapTokens_id, Stmt.mapTokens_id thenBranch,
      Stmt.mapTokens_id elseBranch]
  | .whileLoop condition body => by
    rw [Stmt.mapTokens, Expr.mapTokens_id, Stmt.mapTokens_id body]
  | .stray node => rfl

theorem Stmt.mapAllTokens_id : (statements : List Stmt) →
    Stmt.mapAllTokens id id statements = statements
  | [] => rfl
  | s :: rest => by rw [Stmt.mapAllTokens, Stmt.mapTokens_id s, Stmt.mapAllTokens_id rest]

end

end Scriptlet
