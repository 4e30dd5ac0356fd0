import Scriptlet.Tree.Basic

/-!
# Scriptlet — trees that are alike

Two trees are alike if they have the same shape, their tokens agree in kind,
text, value and line, and their literals are alike. Literals are compared more
loosely than values of a running program: true is like one and false like zero.
A literal holds no line.

* `Value.alike`, `Token.alike` — the comparison of leaves.
* `Expr.alike`, `Stmt.alike`, `Stmt.allAlike` — the comparison of trees.
-/

namespace Scriptlet

/-- Whether two literals are alike. -/
def Value.alike : Value → Value → Bool
  | nil, nil => true
  | bool a, bool b => a == b
  | number a, number b => a == b
  | bool a, number b => (if a then 1.0 else 0.0) == b
  | number a, bool b => a == (if b then 1.0 else 0.0)
  | text a, text b => a == b
  | _, _ => false

/-- Whether two tokens agree in kind, text, value and line. -/
def Token.alike (a b : Token) : Bool :=
  a.kind == b.kind && a.lexeme == b.lexeme && a.literal.alike b.literal && a.line == b.line

/-- Whether two expressions are alike. A stray node is like no other. -/
def Expr.alike : Expr → Expr → Bool
  | literal a, literal b => a.alike b
  | grouping a, grouping b => a.alike b
  | unary o a, unary p b => o.alike p && a.alike b
  | binary a o c, binary b p d => a.alike b && o.alike p && c.alike d
  | logical a o c, logical b p d => a.alike b && o.alike p && c.alike d
  | .variable a, .variable b => a.alike b
  | assign n a, assign m b => n.alike m && a.alike b
  | _, _ => false

mutual

/-- Whether two statements are alike. -/
def Stmt.alike : Stmt → Stmt → Bool
  | expression a, expression b => a.alike b
  | print a, print b => a.alike b
  | varDecl n none, varDecl m none => n.alike m
  | varDecl n (some a), varDecl m (some b) => n.alike m && a.alike b
  | block as, block bs => Stmt.allAlike as bs
  | ifElse c a none, ifElse d b none => c.alike d && a.alike b
  | ifElse c a (some e), ifElse d b (some f) => c.alike d && a.alike b && e.alike f
  | whileLoop c a, whileLoop d b => c.alike d && a.alike b
  | _, _ => false

/-- Whether two lists of statements are alike, member by member. -/
def Stmt.allAlike : List Stmt → List Stmt → Bool
  | [], [] => true
  | a :: as, b :: bs => a.alike b && Stmt.allAlike as bs
  | _, _ => false

end

end Scriptlet
