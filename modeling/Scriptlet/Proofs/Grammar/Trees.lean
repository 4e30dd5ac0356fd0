import Scriptlet.Parse.Expression
import Scriptlet.Proofs.Grammar.Ebnf

/-!
# Scriptlet — the grammar and its trees

The grammar of the language, rule by rule, and beside it the trees that its
sentences stand for. A tree is given by a relation between tokens and nodes with
one case for each alternative of a rule: the cases say which tokens are kept,
that chains of binary operators nest to the left and assignments and unary
operators to the right, that parentheses leave a node behind, and what a `for`
loop becomes.

The rules alone leave open to which `if` an `else` belongs. The trees do not: a
statement that ends with an `if` without `else` is dangling, and no such
statement stands in front of an `else`.

* `grammar`       — the rules.
* `BinaryLevel`   — the table of binary operators.
* `ExprTree`      — the trees of expressions.
* `ExprTree.toExpression`, `ExprTree.of_primary` — where an expression may stand.
* `expandFor`     — what a `for` loop becomes.
* `StmtTree`      — the trees of declarations and statements.
* `ProgramTree`   — the trees of programs.
-/

namespace Scriptlet.Grammar

open Scriptlet.Parse (Level)

-- ---------------------------------------------------------------------------
-- The rules
-- ---------------------------------------------------------------------------

/-- The nonterminals; each level of the binary operators has one. -/
inductive Nonterminal where
  | program | declaration | varDecl
  | statement | forStmt | ifStmt | printStmt | whileStmt | block | exprStmt
  | expression | assignment
  | level (l : Level)
  | unary | primary

/-- A token in a rule. -/
abbrev tok (kind : TokenKind) : Ebnf Nonterminal TokenKind := .token kind

/-- A nonterminal in a rule. -/
abbrev sym (n : Nonterminal) : Ebnf Nonterminal TokenKind := .rule n

open Ebnf Nonterminal in
/-- The rules of the grammar. -/
def grammar : Nonterminal → Ebnf Nonterminal TokenKind
  | program => many (sym declaration) ++ tok .eof
  | declaration => sym varDecl <|> sym statement
  | varDecl =>
    tok .varKw ++ (tok .identifier ++
      (opt (tok .equal ++ sym expression) ++ tok .semicolon))
  | statement =>
    sym forStmt <|> sym ifStmt <|> sym printStmt <|> sym whileStmt <|> sym block
      <|> sym exprStmt
  | forStmt =>
    tok .forKw ++ (tok .leftParen ++ ((sym varDecl <|> sym exprStmt <|> tok .semicolon) ++
      (opt (sym expression) ++ (tok .semicolon ++
        (opt (sym expression) ++ (tok .rightParen ++ sym statement))))))
  | ifStmt =>
    tok .ifKw ++ (tok .leftParen ++ (sym expression ++ (tok .rightParen ++
      (sym statement ++ opt (tok .elseKw ++ sym statement)))))
  | printStmt => tok .printKw ++ (sym expression ++ tok .semicolon)
  | whileStmt =>
    tok .whileKw ++ (tok .leftParen ++ (sym expression ++ (tok .rightParen ++
      sym statement)))
  | block => tok .leftBrace ++ (many (sym declaration) ++ tok .rightBrace)
  | exprStmt => sym expression ++ tok .semicolon
  | expression => sym assignment
  | assignment =>
    (tok .identifier ++ (tok .equal ++ sym assignment)) <|> sym (level .or)
  | level .or => sym (level .and) ++ many (tok .orKw ++ sym (level .and))
  | level .and => sym (level .equality) ++ many (tok .andKw ++ sym (level .equality))
  | level .equality =>
    sym (level .comparison) ++
      many ((tok .bangEqual <|> tok .equalEqual) ++ sym (level .comparison))
  | level .comparison =>
    sym (level .term) ++
      many ((tok .greater <|> tok .greaterEqual <|> tok .less <|> tok .lessEqual)
        ++ sym (level .term))
  | level .term =>
    sym (level .factor) ++ many ((tok .minus <|> tok .plus) ++ sym (level .factor))
  | level .factor => sym unary ++ many ((tok .slash <|> tok .star) ++ sym unary)
  | unary => (tok .bang <|> tok .minus) ++ sym unary <|> sym primary
  | primary =>
    tok .number <|> tok .string <|> tok .trueKw <|> tok .falseKw <|> tok .nilKw
      <|> tok .identifier
      <|> tok .leftParen ++ (sym expression ++ tok .rightParen)

/-- The sentences of the grammar. -/
def Sentence (kinds : List TokenKind) : Prop := Derives grammar (.rule .program) kinds

-- ---------------------------------------------------------------------------
-- Expressions
-- ---------------------------------------------------------------------------

/-- A level of the binary operators: its operators, what its operands are, and its node. -/
inductive BinaryLevel :
    Level → List TokenKind → Nonterminal → (Expr → Token → Expr → Expr) → Prop where
  | or : BinaryLevel .or [.orKw] (.level .and) .logical
  | and : BinaryLevel .and [.andKw] (.level .equality) .logical
  | equality : BinaryLevel .equality [.bangEqual, .equalEqual] (.level .comparison) .binary
  | comparison :
      BinaryLevel .comparison [.greater, .greaterEqual, .less, .lessEqual] (.level .term) .binary
  | term : BinaryLevel .term [.minus, .plus] (.level .factor) .binary
  | factor : BinaryLevel .factor [.slash, .star] .unary .binary

/-- The tokens of an expression and its tree. -/
inductive ExprTree : Nonterminal → List Token → Expr → Prop where
  | expression {ts : List Token} {e : Expr} :
      ExprTree .assignment ts e → ExprTree .expression ts e
  | assign {name equals : Token} {ts : List Token} {e : Expr} (hName : name.kind = .identifier)
      (hEquals : equals.kind = .equal) :
      ExprTree .assignment ts e → ExprTree .assignment (name :: equals :: ts) (.assign name e)
  | noAssign {ts : List Token} {e : Expr} :
      ExprTree (.level .or) ts e → ExprTree .assignment ts e
  | operand {l : Level} {operators : List TokenKind} {below : Nonterminal}
      {node : Expr → Token → Expr → Expr} {ts : List Token} {e : Expr}
      (hLevel : BinaryLevel l operators below node) :
      ExprTree below ts e → ExprTree (.level l) ts e
  /-- The operator behind a chain takes the whole chain as its left operand. -/
  | operator {l : Level} {operators : List TokenKind} {below : Nonterminal}
      {node : Expr → Token → Expr → Expr} {ts us : List Token} {op : Token} {left right : Expr}
      (hLevel : BinaryLevel l operators below node) (hOp : op.kind ∈ operators) :
      ExprTree (.level l) ts left → ExprTree below us right →
      ExprTree (.level l) (ts ++ op :: us) (node left op right)
  | unary {op : Token} {ts : List Token} {e : Expr} (hOp : op.kind = .bang ∨ op.kind = .minus) :
      ExprTree .unary ts e → ExprTree .unary (op :: ts) (.unary op e)
  | noUnary {ts : List Token} {e : Expr} : ExprTree .primary ts e → ExprTree .unary ts e
  | value {t : Token} (hKind : t.kind = .number ∨ t.kind = .string) :
      ExprTree .primary [t] (.literal t.literal)
  | trueValue {t : Token} (hKind : t.kind = .trueKw) :
      ExprTree .primary [t] (.literal (.bool true))
  | falseValue {t : Token} (hKind : t.kind = .falseKw) :
      ExprTree .primary [t] (.literal (.bool false))
  | nilValue {t : Token} (hKind : t.kind = .nilKw) : ExprTree .primary [t] (.literal .nil)
  | name {t : Token} (hKind : t.kind = .identifier) : ExprTree .primary [t] (.variable t)
  | group {left right : Token} {ts : List Token} {e : Expr} (hLeft : left.kind = .leftParen)
      (hRight : right.kind = .rightParen) :
      ExprTree .expression ts e → ExprTree .primary (left :: (ts ++ [right])) (.grouping e)

namespace ExprTree

variable {n : Nonterminal} {ts us : List Token} {e x : Expr}

/-- An operand of any level is an expression. -/
theorem loosen {l : Level} (h : ExprTree (.level l) ts e) : ExprTree .expression ts e := by
  refine .expression (.noAssign ?_)
  cases l with
  | or => exact h
  | and => exact .operand .or h
  | equality => exact .operand .or (.operand .and h)
  | comparison => exact .operand .or (.operand .and (.operand .equality h))
  | term => exact .operand .or (.operand .and (.operand .equality (.operand .comparison h)))
  | factor =>
    exact .operand .or (.operand .and (.operand .equality (.operand .comparison
      (.operand .term h))))

/-- Whatever stands for a nonterminal of an expression is an expression. -/
theorem toExpression (h : ExprTree n ts e) : ExprTree .expression ts e := by
  cases n with
  | expression => exact h
  | assignment => exact .expression h
  | level l => exact h.loosen
  | unary => exact (operand .factor h).loosen
  | primary => exact (operand .factor (.noUnary h)).loosen
  | _ => nomatch h

/-- A primary expression may stand wherever an expression may. -/
theorem of_primary (h : ExprTree n us x) (hPrimary : ExprTree .primary ts e) :
    ExprTree n ts e := by
  induction h with
  | expression h ih => exact .expression ih
  | assign hName hEquals h ih => exact ih
  | noAssign h ih => exact .noAssign ih
  | operand hLevel h ih => exact .operand hLevel ih
  | operator hLevel hOp hLeft hRight ihLeft ihRight => exact ihLeft
  | unary hOp h ih => exact ih
  | noUnary h ih => exact .noUnary hPrimary
  | value | trueValue | falseValue | nilValue | name | group => exact hPrimary

end ExprTree

/-- An expression that may be left out. -/
inductive OptionalTree : List Token → Option Expr → Prop where
  | absent : OptionalTree [] none
  | present {ts : List Token} {e : Expr} : ExprTree .expression ts e → OptionalTree ts (some e)

/-- An expression between parentheses, as the condition of a statement. -/
inductive ConditionTree : List Token → Expr → Prop where
  | mk {left right : Token} {ts : List Token} {e : Expr} (hLeft : left.kind = .leftParen)
      (hRight : right.kind = .rightParen) :
      ExprTree .expression ts e → ConditionTree (left :: (ts ++ [right])) e

-- ---------------------------------------------------------------------------
-- Statements
-- ---------------------------------------------------------------------------

/-- The tokens of a variable declaration and its tree. -/
inductive VarDeclTree : List Token → Stmt → Prop where
  | bare {var name semicolon : Token} (hVar : var.kind = .varKw) (hName : name.kind = .identifier)
      (hEnd : semicolon.kind = .semicolon) :
      VarDeclTree [var, name, semicolon] (.varDecl name none)
  | initialized {var name equals semicolon : Token} {ts : List Token} {e : Expr}
      (hVar : var.kind = .varKw) (hName : name.kind = .identifier) (hEquals : equals.kind = .equal)
      (hEnd : semicolon.kind = .semicolon) :
      ExprTree .expression ts e →
      VarDeclTree (var :: name :: equals :: (ts ++ [semicolon])) (.varDecl name (some e))

/-- The tokens of an expression statement and its tree. -/
inductive ExprStmtTree : List Token → Stmt → Prop where
  | mk {semicolon : Token} {ts : List Token} {e : Expr} (hEnd : semicolon.kind = .semicolon) :
      ExprTree .expression ts e → ExprStmtTree (ts ++ [semicolon]) (.expression e)

/-- The first clause of a `for` loop with its semicolon. -/
inductive ForInitTree : List Token → Option Stmt → Prop where
  | absent {semicolon : Token} (hEnd : semicolon.kind = .semicolon) : ForInitTree [semicolon] none
  | varDecl {ts : List Token} {s : Stmt} : VarDeclTree ts s → ForInitTree ts (some s)
  | exprStmt {ts : List Token} {s : Stmt} : ExprStmtTree ts s → ForInitTree ts (some s)

/--
What a `for` loop becomes: a block of the initializer and a `while` loop, whose
body is a block of the loop's body and the increment. Without an initializer or
an increment there is no such block, and without a condition it is true.
-/
def expandFor (initializer : Option Stmt) (condition increment : Option Expr) (body : Stmt) :
    Stmt :=
  let round := increment.elim body fun e => .block [body, .expression e]
  let loop := .whileLoop (condition.getD (.literal (.bool true))) round
  initializer.elim loop fun s => .block [s, loop]

/-- What is built: a declaration, or a statement that may or may not be dangling. -/
inductive Form where
  | declaration
  | statement (dangling : Bool)

/-- The tokens of a declaration or a statement and its tree. -/
inductive StmtTree : Form → List Token → Stmt → Prop where
  | varDecl {ts : List Token} {s : Stmt} : VarDeclTree ts s → StmtTree .declaration ts s
  | statement {dangling : Bool} {ts : List Token} {s : Stmt} :
      StmtTree (.statement dangling) ts s → StmtTree .declaration ts s
  | expression {ts : List Token} {s : Stmt} :
      ExprStmtTree ts s → StmtTree (.statement false) ts s
  | print {print semicolon : Token} {ts : List Token} {e : Expr} (hPrint : print.kind = .printKw)
      (hEnd : semicolon.kind = .semicolon) :
      ExprTree .expression ts e →
      StmtTree (.statement false) (print :: (ts ++ [semicolon])) (.print e)
  | block {left right : Token} (parts : List (List Token × Stmt)) (hLeft : left.kind = .leftBrace)
      (hRight : right.kind = .rightBrace) :
      (∀ part ∈ parts, StmtTree .declaration part.1 part.2) →
      StmtTree (.statement false) (left :: (parts.flatMap Prod.fst ++ [right]))
        (.block (parts.map Prod.snd))
  | ifThen {keyword : Token} {cs ts : List Token} {c : Expr} {s : Stmt} {dangling : Bool}
      (hIf : keyword.kind = .ifKw) :
      ConditionTree cs c → StmtTree (.statement dangling) ts s →
      StmtTree (.statement true) (keyword :: (cs ++ ts)) (.ifElse c s none)
  /-- The first branch takes no `else` itself, or this one would be its own. -/
  | ifElse {keyword elseKeyword : Token} {cs ts us : List Token} {c : Expr} {s s' : Stmt}
      {dangling : Bool} (hIf : keyword.kind = .ifKw) (hElse : elseKeyword.kind = .elseKw) :
      ConditionTree cs c → StmtTree (.statement false) ts s →
      StmtTree (.statement dangling) us s' →
      StmtTree (.statement dangling) (keyword :: (cs ++ (ts ++ elseKeyword :: us)))
        (.ifElse c s (some s'))
  | whileLoop {keyword : Token} {cs ts : List Token} {c : Expr} {s : Stmt} {dangling : Bool}
      (hWhile : keyword.kind = .whileKw) :
      ConditionTree cs c → StmtTree (.statement dangling) ts s →
      StmtTree (.statement dangling) (keyword :: (cs ++ ts)) (.whileLoop c s)
  | forLoop {keyword left semicolon right : Token} {is cs us ts : List Token}
      {initializer : Option Stmt} {condition increment : Option Expr} {s : Stmt} {dangling : Bool}
      (hFor : keyword.kind = .forKw) (hLeft : left.kind = .leftParen)
      (hSemicolon : semicolon.kind = .semicolon) (hRight : right.kind = .rightParen) :
      ForInitTree is initializer → OptionalTree cs condition → OptionalTree us increment →
      StmtTree (.statement dangling) ts s →
      StmtTree (.statement dangling)
        (keyword :: left :: (is ++ (cs ++ semicolon :: (us ++ right :: ts))))
        (expandFor initializer condition increment s)

/-- The tokens of a program, the end of file aside, and its trees. -/
def ProgramTree (tokens : List Token) (statements : List Stmt) : Prop :=
  ∃ parts : List (List Token × Stmt), (∀ part ∈ parts, StmtTree .declaration part.1 part.2) ∧
    parts.flatMap Prod.fst = tokens ∧ parts.map Prod.snd = statements

end Scriptlet.Grammar
