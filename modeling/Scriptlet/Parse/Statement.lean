import Scriptlet.Parse.Expression
import Scriptlet.Parse.Recovery

/-!
# Scriptlet — reading statements

The statements, the `for` loop as the `while` loop it stands for, and whole
programs.

    program     = declaration* eof
    declaration = "var" varDeclaration | statement
    statement   = "for" forStatement | "if" ifStatement | "print" printStatement
                | "while" whileStatement | "{" block | expressionStatement

## Results

* `varDeclaration`, `expressionStatement`, `printStatement` — without statements inside.
* `ForHead.loop`            — a `for` loop as a `while` loop.
* `statement`, `block`, `ifStatement`, `whileStatement`, `forStatement` — the others.
* `declaration`             — a statement, or none where it was dropped.
* `program`                 — all statements and all reports.
-/

namespace Scriptlet.Parse

-- ---------------------------------------------------------------------------
-- Statements without statements inside
-- ---------------------------------------------------------------------------

/-- A variable declaration, behind its keyword. -/
def varDeclaration (tokens : List Token) : Step Stmt tokens :=
  (expect .identifier .noVariableName tokens).andThen fun name rest h =>
    match rest, h with
    | [], _ => .ranOff []
    | t :: after, h =>
      if t.kind = .equal then
        ((expression after).bind fun e rest _ =>
          (expect .semicolon .openDeclaration rest).map fun _ => .varDecl name (some e)).within
          h.tail
      else
        ((expect .semicolon .openDeclaration (t :: after)).map fun _ =>
          .varDecl name none).within h.1

/-- An expression and the semicolon behind it. -/
def expressionStatement (tokens : List Token) : Step Stmt tokens :=
  (expression tokens).bind fun e rest _ =>
    (expect .semicolon .openExpression rest).map fun _ => .expression e

/-- A print statement, behind its keyword. -/
def printStatement (tokens : List Token) : Step Stmt tokens :=
  (expression tokens).bind fun e rest _ =>
    (expect .semicolon .openPrint rest).map fun _ => .print e

/-- A parenthesised condition, with the complaints about its two parentheses. -/
def condition (noParen openParen : Complaint) (tokens : List Token) : Step Expr tokens :=
  (expect .leftParen noParen tokens).bind fun _ rest _ =>
    (expression rest).bind fun e rest _ => (expect .rightParen openParen rest).map fun _ => e

-- ---------------------------------------------------------------------------
-- The head of a for loop
-- ---------------------------------------------------------------------------

/-- The three clauses of a `for` loop, each of which may be left out. -/
structure ForHead where
  initializer : Option Stmt
  condition : Option Expr
  increment : Option Expr

/--
A `for` loop as a `while` loop: the increment runs behind the body, a condition
left out is true, and the initializer opens a block around the whole.
-/
def ForHead.loop (head : ForHead) (body : Stmt) : Stmt :=
  let body := match head.increment with
    | some e => .block [body, .expression e]
    | none => body
  let loop := .whileLoop (head.condition.getD (.literal (.bool true))) body
  match head.initializer with
  | some s => .block [s, loop]
  | none => loop

/-- The first clause with its semicolon: a declaration, an expression or nothing. -/
def forInitializer (tokens : List Token) : Step (Option Stmt) tokens :=
  match tokens with
  | [] => .ranOff []
  | t :: rest =>
    if t.kind = .semicolon then .done none rest [] (shorter_tail t rest)
    else if t.kind = .varKw then
      ((varDeclaration rest).map some).within (List.suffix_cons t rest)
    else (expressionStatement (t :: rest)).map some

/-- A clause up to the token that closes it, and that token. -/
def forClause (close : TokenKind) (complaint : Complaint) (tokens : List Token) :
    Step (Option Expr) tokens :=
  match tokens with
  | [] => .ranOff []
  | t :: rest =>
    if t.kind = close then .done none rest [] (shorter_tail t rest)
    else (expression (t :: rest)).bind fun e rest _ =>
      (expect close complaint rest).map fun _ => some e

/-- The clauses of a `for` loop between their parentheses. -/
def forHead (tokens : List Token) : Step ForHead tokens :=
  (expect .leftParen .noForParen tokens).bind fun _ rest _ =>
    (forInitializer rest).bind fun initializer rest _ =>
      (forClause .semicolon .openForCondition rest).bind fun condition rest _ =>
        (forClause .rightParen .openForClauses rest).map fun increment =>
          { initializer, condition, increment }

-- ---------------------------------------------------------------------------
-- Statements
-- ---------------------------------------------------------------------------

mutual

/-- A declaration, in front of a token that does not end the file. -/
def declaration (t : Token) (tail : List Token) (ht : t.kind ≠ .eof) : Declared (t :: tail) :=
  if t.kind = .varKw then recover ht ((varDeclaration tail).within (List.suffix_cons t tail))
  else recover ht (statement (t :: tail))
termination_by 32 * tail.length + 34
decreasing_by
  simp only [List.length_cons]
  omega

/-- A statement. -/
def statement (tokens : List Token) : Step Stmt tokens :=
  match tokens with
  | [] => .ranOff []
  | t :: rest =>
    match t.kind with
    | .forKw => (forStatement rest).within (List.suffix_cons t rest)
    | .ifKw => (ifStatement rest).within (List.suffix_cons t rest)
    | .printKw => (printStatement rest).within (List.suffix_cons t rest)
    | .whileKw => (whileStatement rest).within (List.suffix_cons t rest)
    | .leftBrace => ((block rest).map .block).within (List.suffix_cons t rest)
    | _ => expressionStatement (t :: rest)
termination_by 32 * tokens.length + 1
decreasing_by all_goals
  simp only [List.length_cons]
  omega

/-- The declarations of a block up to its closing brace, and that brace. -/
def block (tokens : List Token) : Step (List Stmt) tokens :=
  match tokens with
  | [] => .ranOff []
  | t :: rest =>
    if t.kind = .rightBrace then .done [] rest [] (shorter_tail t rest)
    else if ht : t.kind = .eof then abandon .openBlock (t :: rest)
    else (declaration t rest ht).toStep.bind fun s? rest _h =>
      (block rest).map (s?.toList ++ ·)
termination_by 32 * tokens.length + 3
decreasing_by
  · simp only [List.length_cons]
    omega
  · have := _h.2
    omega

/-- An `if` statement, behind its keyword. An `else` belongs to the nearest `if` before it. -/
def ifStatement (tokens : List Token) : Step Stmt tokens :=
  (condition .noIfParen .openIfCondition tokens).bind fun e rest _h =>
    (statement rest).andThen fun thenBranch rest h =>
      match rest, h with
      | [], _ => .ranOff []
      | t :: after, h =>
        if t.kind = .elseKw then
          ((statement after).map fun s => .ifElse e thenBranch (some s)).within h.tail
        else .done (.ifElse e thenBranch none) (t :: after) [] h
termination_by 32 * tokens.length + 2
decreasing_by
  · have := _h.2
    omega
  · have := _h.2
    have := h.2
    simp only [List.length_cons] at this
    omega

/-- A `while` statement, behind its keyword. -/
def whileStatement (tokens : List Token) : Step Stmt tokens :=
  (condition .noWhileParen .openWhileCondition tokens).bind fun e rest _h =>
    (statement rest).map (.whileLoop e)
termination_by 32 * tokens.length + 2
decreasing_by
  have := _h.2
  omega

/-- A `for` statement, behind its keyword, as the `while` loop it stands for. -/
def forStatement (tokens : List Token) : Step Stmt tokens :=
  (forHead tokens).bind fun head rest _h => (statement rest).map head.loop
termination_by 32 * tokens.length + 2
decreasing_by
  have := _h.2
  omega

end

-- ---------------------------------------------------------------------------
-- Programs
-- ---------------------------------------------------------------------------

/-- What was read from a list of tokens, and the tokens from the end of the file on. -/
structure Program where
  statements : List Stmt
  reports : List Report
  /-- Empty exactly if no token ended the file. -/
  rest : List Token

/-- A program with a declaration and its reports in front. -/
def Program.prepend (p : Program) (s? : Option Stmt) (reports : List Report) : Program :=
  { p with statements := s?.toList ++ p.statements, reports := reports ++ p.reports }

/-- All declarations up to the end of the file. -/
def program (tokens : List Token) : Program :=
  match tokens with
  | [] => { statements := [], reports := [], rest := [] }
  | t :: tail =>
    if ht : t.kind = .eof then { statements := [], reports := [], rest := t :: tail }
    else match declaration t tail ht with
      | .done s? rest reports _h => (program rest).prepend s? reports
      | .ranOff reports => { statements := [], reports, rest := [] }
termination_by tokens.length
decreasing_by
  have := _h.2
  simpa using this

end Scriptlet.Parse
