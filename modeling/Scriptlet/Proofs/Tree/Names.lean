import Scriptlet.Tree.Basic

/-!
# Scriptlet — the names in a tree

A statement can change bindings in two ways. It declares names in the scope that
it runs in, unless the declaration stands in a block, which has a scope of its
own; and it assigns to names, wherever they are bound. Beyond that it uses the
names that it looks up.

* `Expr.assigned`, `Stmt.assigned`, `Stmt.allAssigned` — the names that are assigned to.
* `Stmt.declared`, `Stmt.allDeclared` — the names declared outside blocks.
* `Expr.names`, `Stmt.names`, `Stmt.allNames` — all names that occur.
-/

namespace Scriptlet

/-- The names that an expression assigns to. -/
def Expr.assigned : Expr → List String
  | literal _ => []
  | grouping inner => inner.assigned
  | unary _ operand => operand.assigned
  | binary left _ right => left.assigned ++ right.assigned
  | logical left _ right => left.assigned ++ right.assigned
  | .variable _ => []
  | assign name value => name.lexeme :: value.assigned
  | stray _ => []

mutual

/-- The names that a statement assigns to, in blocks as well. -/
def Stmt.assigned : Stmt → List String
  | expression e => e.assigned
  | print e => e.assigned
  | varDecl _ none => []
  | varDecl _ (some e) => e.assigned
  | block body => Stmt.allAssigned body
  | ifElse condition thenBranch none => condition.assigned ++ thenBranch.assigned
  | ifElse condition thenBranch (some elseBranch) =>
    condition.assigned ++ (thenBranch.assigned ++ elseBranch.assigned)
  | whileLoop condition body => condition.assigned ++ body.assigned
  | stray _ => []

/-- The names that statements assign to. -/
def Stmt.allAssigned : List Stmt → List String
  | [] => []
  | s :: rest => s.assigned ++ Stmt.allAssigned rest

end

/-- The names that a statement declares in the scope it runs in; a block has its own. -/
def Stmt.declared : Stmt → List String
  | expression _ => []
  | print _ => []
  | varDecl name _ => [name.lexeme]
  | block _ => []
  | ifElse _ thenBranch none => thenBranch.declared
  | ifElse _ thenBranch (some elseBranch) => thenBranch.declared ++ elseBranch.declared
  | whileLoop _ body => body.declared
  | stray _ => []

/-- The names that statements declare in the scope they run in. -/
def Stmt.allDeclared (statements : List Stmt) : List String := statements.flatMap Stmt.declared

theorem Stmt.allDeclared_cons (s : Stmt) (rest : List Stmt) :
    Stmt.allDeclared (s :: rest) = s.declared ++ Stmt.allDeclared rest := List.flatMap_cons

/-- The names that occur in an expression. -/
def Expr.names : Expr → List String
  | literal _ => []
  | grouping inner => inner.names
  | unary _ operand => operand.names
  | binary left _ right => left.names ++ right.names
  | logical left _ right => left.names ++ right.names
  | .variable name => [name.lexeme]
  | assign name value => name.lexeme :: value.names
  | stray _ => []

mutual

/-- The names that occur in a statement, declared, assigned to or looked up. -/
def Stmt.names : Stmt → List String
  | expression e => e.names
  | print e => e.names
  | varDecl name none => [name.lexeme]
  | varDecl name (some e) => name.lexeme :: e.names
  | block body => Stmt.allNames body
  | ifElse condition thenBranch none => condition.names ++ thenBranch.names
  | ifElse condition thenBranch (some elseBranch) =>
    condition.names ++ (thenBranch.names ++ elseBranch.names)
  | whileLoop condition body => condition.names ++ body.names
  | stray _ => []

/-- The names that occur in statements. -/
def Stmt.allNames : List Stmt → List String
  | [] => []
  | s :: rest => s.names ++ Stmt.allNames rest

end

end Scriptlet
