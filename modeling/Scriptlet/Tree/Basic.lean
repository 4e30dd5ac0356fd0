import Scriptlet.Token

/-!
# Scriptlet — syntax trees

Expressions and statements. A `for` loop has no node of its own: it is read as a
block around a `while` loop.

A tree that comes from outside may hold a stray node where an expression or a
statement has to be: a node of the other family, or nothing that the language
knows at all. A stray node is kept by the name of its kind and by what a dump
shows of it, and running one is a defect of the tree.

* `Expr`, `Stmt`   — the two families.
* `Stray`          — a node out of place.
* `Defect`         — why a tree cannot be dumped or run, with its wording.
-/

namespace Scriptlet

/-- Why a tree cannot be dumped or run: the tree is at fault, not the program it stands for. -/
inductive Defect where
  /-- A node of this kind has no dump. -/
  | notDumped (kind : String)
  /-- A node of this kind is no expression. -/
  | notExpression (kind : String)
  /-- A node of this kind is no statement. -/
  | notStatement (kind : String)
  /-- A token that is no unary operator. -/
  | unknownUnary (lexeme : String)
  /-- A token that is no binary operator. -/
  | unknownBinary (lexeme : String)
  deriving DecidableEq, Repr

/-- The wording of a defect. -/
def Defect.message : Defect → String
  | notDumped kind => "cannot print " ++ kind
  | notExpression kind => "cannot evaluate " ++ kind
  | notStatement kind => "cannot execute " ++ kind
  | unknownUnary lexeme => "unknown unary operator '" ++ lexeme ++ "'"
  | unknownBinary lexeme => "unknown binary operator '" ++ lexeme ++ "'"

/-- A node out of place: the name of its kind and its dump. -/
structure Stray where
  kind : String
  dump : Except Defect String

/-- A node of a kind that the language does not know. -/
def Stray.unknown (kind : String) : Stray where
  kind := kind
  dump := .error (.notDumped kind)

/-- An expression. -/
inductive Expr where
  | literal (value : Value)
  | grouping (inner : Expr)
  | unary (operator : Token) (operand : Expr)
  | binary (left : Expr) (operator : Token) (right : Expr)
  /-- The operators whose right operand may be left out. -/
  | logical (left : Expr) (operator : Token) (right : Expr)
  | variable (name : Token)
  | assign (name : Token) (value : Expr)
  | stray (node : Stray)

/-- A statement. -/
inductive Stmt where
  | expression (e : Expr)
  | print (e : Expr)
  | varDecl (name : Token) (initializer : Option Expr)
  | block (body : List Stmt)
  | ifElse (condition : Expr) (thenBranch : Stmt) (elseBranch : Option Stmt)
  | whileLoop (condition : Expr) (body : Stmt)
  | stray (node : Stray)

instance : Inhabited Expr := ⟨.literal .nil⟩

instance : Inhabited Stmt := ⟨.block []⟩

/-- The name of an expression's kind. -/
def Expr.kind : Expr → String
  | literal _ => "Literal"
  | grouping _ => "Grouping"
  | unary .. => "Unary"
  | binary .. => "Binary"
  | logical .. => "Logical"
  | .variable _ => "Variable"
  | assign .. => "Assign"
  | stray node => node.kind

/-- The name of a statement's kind. -/
def Stmt.kind : Stmt → String
  | expression _ => "ExpressionStmt"
  | print _ => "Print"
  | varDecl .. => "VarDecl"
  | block _ => "Block"
  | ifElse .. => "If"
  | whileLoop .. => "While"
  | stray node => node.kind

end Scriptlet
