import Scriptlet.Proofs.Grammar.Trees

/-!
# Scriptlet — gaps in a text

An expression of a tree was read from some tokens, and the rest of the tree from
the tokens before and behind them. A gap is such a rest: a derivation in which
one expression is left out, with what becomes of the expression that is put
there. Whatever is read from tokens as the nonterminal that is left out fits into
the gap, and parentheses around it fit there as well.

One expression of a tree is not read from tokens: the condition of a `for` loop
that is true because it was left out.

## Results

* `ExprGap`, `StmtGap`, `ProgramGap` — derivations without an expression.
* `Fills`                   — what stands in a gap.
* `ExprGap.fill`, `StmtGap.fill`, `ProgramGap.fill` — a gap that is filled is a tree.
* `Fills.parenthesised`     — an expression between parentheses.
-/

namespace Scriptlet.Grammar

open Scriptlet.Parse (Level)

-- ---------------------------------------------------------------------------
-- Gaps in expressions
-- ---------------------------------------------------------------------------

/--
The tokens before and behind an expression that is left out of another one, and
the other one around what is put there.
-/
inductive ExprGap (m : Nonterminal) :
    Nonterminal → List Token → List Token → (Expr → Expr) → Prop where
  | here : ExprGap m m [] [] fun x => x
  | expression {b a : List Token} {put : Expr → Expr} :
      ExprGap m .assignment b a put → ExprGap m .expression b a put
  | assign {name equals : Token} {b a : List Token} {put : Expr → Expr}
      (hName : name.kind = .identifier) (hEquals : equals.kind = .equal) :
      ExprGap m .assignment b a put →
      ExprGap m .assignment (name :: equals :: b) a fun x => .assign name (put x)
  | noAssign {b a : List Token} {put : Expr → Expr} :
      ExprGap m (.level .or) b a put → ExprGap m .assignment b a put
  | operand {l : Level} {operators : List TokenKind} {below : Nonterminal}
      {node : Expr → Token → Expr → Expr} {b a : List Token} {put : Expr → Expr}
      (hLevel : BinaryLevel l operators below node) :
      ExprGap m below b a put → ExprGap m (.level l) b a put
  | left {l : Level} {operators : List TokenKind} {below : Nonterminal}
      {node : Expr → Token → Expr → Expr} {b a us : List Token} {op : Token} {put : Expr → Expr}
      {right : Expr} (hLevel : BinaryLevel l operators below node) (hOp : op.kind ∈ operators) :
      ExprGap m (.level l) b a put → ExprTree below us right →
      ExprGap m (.level l) b (a ++ op :: us) fun x => node (put x) op right
  | right {l : Level} {operators : List TokenKind} {below : Nonterminal}
      {node : Expr → Token → Expr → Expr} {b a ts : List Token} {op : Token} {put : Expr → Expr}
      {left : Expr} (hLevel : BinaryLevel l operators below node) (hOp : op.kind ∈ operators) :
      ExprTree (.level l) ts left → ExprGap m below b a put →
      ExprGap m (.level l) (ts ++ op :: b) a fun x => node left op (put x)
  | unary {op : Token} {b a : List Token} {put : Expr → Expr}
      (hOp : op.kind = .bang ∨ op.kind = .minus) :
      ExprGap m .unary b a put → ExprGap m .unary (op :: b) a fun x => .unary op (put x)
  | noUnary {b a : List Token} {put : Expr → Expr} :
      ExprGap m .primary b a put → ExprGap m .unary b a put
  | group {left right : Token} {b a : List Token} {put : Expr → Expr}
      (hLeft : left.kind = .leftParen) (hRight : right.kind = .rightParen) :
      ExprGap m .expression b a put →
      ExprGap m .primary (left :: b) (a ++ [right]) fun x => .grouping (put x)

/-- A gap with an expression in it is an expression. -/
theorem ExprGap.fill {m n : Nonterminal} {b a us : List Token} {put : Expr → Expr} {x : Expr}
    (hGap : ExprGap m n b a put) (h : ExprTree m us x) : ExprTree n (b ++ (us ++ a)) (put x) := by
  induction hGap with
  | here => simpa using h
  | expression hGap ih => exact .expression ih
  | assign hName hEquals hGap ih => exact .assign hName hEquals ih
  | noAssign hGap ih => exact .noAssign ih
  | operand hLevel hGap ih => exact .operand hLevel ih
  | left hLevel hOp hGap hRight ih => simpa using ExprTree.operator hLevel hOp ih hRight
  | right hLevel hOp hLeft hGap ih => simpa using ExprTree.operator hLevel hOp hLeft ih
  | unary hOp hGap ih => exact .unary hOp ih
  | noUnary hGap ih => exact .noUnary ih
  | group hLeft hRight hGap ih => simpa using ExprTree.group hLeft hRight ih
-- ---------------------------------------------------------------------------
-- Gaps in clauses
-- ---------------------------------------------------------------------------

/-- A condition with an expression left out. -/
inductive ConditionGap (m : Nonterminal) : List Token → List Token → (Expr → Expr) → Prop where
  | mk {left right : Token} {b a : List Token} {put : Expr → Expr}
      (hLeft : left.kind = .leftParen) (hRight : right.kind = .rightParen) :
      ExprGap m .expression b a put → ConditionGap m (left :: b) (a ++ [right]) put

/-- A variable declaration with an expression left out. -/
inductive VarDeclGap (m : Nonterminal) : List Token → List Token → (Expr → Stmt) → Prop where
  | mk {var name equals semicolon : Token} {b a : List Token} {put : Expr → Expr}
      (hVar : var.kind = .varKw) (hName : name.kind = .identifier) (hEquals : equals.kind = .equal)
      (hEnd : semicolon.kind = .semicolon) :
      ExprGap m .expression b a put →
      VarDeclGap m (var :: name :: equals :: b) (a ++ [semicolon])
        fun x => .varDecl name (some (put x))

/-- An expression statement with an expression left out. -/
inductive ExprStmtGap (m : Nonterminal) : List Token → List Token → (Expr → Stmt) → Prop where
  | mk {semicolon : Token} {b a : List Token} {put : Expr → Expr}
      (hEnd : semicolon.kind = .semicolon) :
      ExprGap m .expression b a put →
      ExprStmtGap m b (a ++ [semicolon]) fun x => .expression (put x)

/-- The first clause of a `for` loop with an expression left out. -/
inductive ForInitGap (m : Nonterminal) : List Token → List Token → (Expr → Stmt) → Prop where
  | varDecl {b a : List Token} {put : Expr → Stmt} : VarDeclGap m b a put → ForInitGap m b a put
  | exprStmt {b a : List Token} {put : Expr → Stmt} : ExprStmtGap m b a put → ForInitGap m b a put

section

variable {m : Nonterminal} {b a us : List Token} {x : Expr}

theorem ConditionGap.fill {put : Expr → Expr} (hGap : ConditionGap m b a put)
    (h : ExprTree m us x) : ConditionTree (b ++ (us ++ a)) (put x) := by
  obtain ⟨hLeft, hRight, hGap⟩ := hGap
  simpa using ConditionTree.mk hLeft hRight (hGap.fill h)

theorem VarDeclGap.fill {put : Expr → Stmt} (hGap : VarDeclGap m b a put)
    (h : ExprTree m us x) : VarDeclTree (b ++ (us ++ a)) (put x) := by
  obtain ⟨hVar, hName, hEquals, hEnd, hGap⟩ := hGap
  simpa using VarDeclTree.initialized hVar hName hEquals hEnd (hGap.fill h)

theorem ExprStmtGap.fill {put : Expr → Stmt} (hGap : ExprStmtGap m b a put)
    (h : ExprTree m us x) : ExprStmtTree (b ++ (us ++ a)) (put x) := by
  obtain ⟨hEnd, hGap⟩ := hGap
  simpa using ExprStmtTree.mk hEnd (hGap.fill h)

theorem ForInitGap.fill {put : Expr → Stmt} (hGap : ForInitGap m b a put)
    (h : ExprTree m us x) : ForInitTree (b ++ (us ++ a)) (some (put x)) := by
  cases hGap with
  | varDecl hGap => exact .varDecl (hGap.fill h)
  | exprStmt hGap => exact .exprStmt (hGap.fill h)
end

-- ---------------------------------------------------------------------------
-- Gaps in statements
-- ---------------------------------------------------------------------------

/--
A declaration or a statement with an expression left out. The gap takes an
expression of the given nonterminal; it takes none if what is left out is a
condition that was not there.
-/
inductive StmtGap : Option Nonterminal → Form → List Token → List Token → (Expr → Stmt) → Prop where
  | varDecl {m : Nonterminal} {b a : List Token} {put : Expr → Stmt} :
      VarDeclGap m b a put → StmtGap (some m) .declaration b a put
  | statement {hole : Option Nonterminal} {dangling : Bool} {b a : List Token}
      {put : Expr → Stmt} :
      StmtGap hole (.statement dangling) b a put → StmtGap hole .declaration b a put
  | expression {m : Nonterminal} {b a : List Token} {put : Expr → Stmt} :
      ExprStmtGap m b a put → StmtGap (some m) (.statement false) b a put
  | print {m : Nonterminal} {print semicolon : Token} {b a : List Token} {put : Expr → Expr}
      (hPrint : print.kind = .printKw) (hEnd : semicolon.kind = .semicolon) :
      ExprGap m .expression b a put →
      StmtGap (some m) (.statement false) (print :: b) (a ++ [semicolon]) fun x => .print (put x)
  | block {hole : Option Nonterminal} {left right : Token} {b a : List Token} {put : Expr → Stmt}
      (front back : List (List Token × Stmt)) (hLeft : left.kind = .leftBrace)
      (hRight : right.kind = .rightBrace)
      (hParts : ∀ part ∈ front ++ back, StmtTree .declaration part.1 part.2) :
      StmtGap hole .declaration b a put →
      StmtGap hole (.statement false) (left :: (front.flatMap Prod.fst ++ b))
        (a ++ (back.flatMap Prod.fst ++ [right]))
        fun x => .block (front.map Prod.snd ++ put x :: back.map Prod.snd)
  | ifCondition {m : Nonterminal} {keyword : Token} {b a ts : List Token} {put : Expr → Expr}
      {s : Stmt} {dangling : Bool} (hIf : keyword.kind = .ifKw) :
      ConditionGap m b a put → StmtTree (.statement dangling) ts s →
      StmtGap (some m) (.statement true) (keyword :: b) (a ++ ts) fun x => .ifElse (put x) s none
  | ifBranch {hole : Option Nonterminal} {keyword : Token} {b a cs : List Token}
      {put : Expr → Stmt} {c : Expr} {dangling : Bool} (hIf : keyword.kind = .ifKw) :
      ConditionTree cs c → StmtGap hole (.statement dangling) b a put →
      StmtGap hole (.statement true) (keyword :: (cs ++ b)) a fun x => .ifElse c (put x) none
  | ifElseCondition {m : Nonterminal} {keyword elseKeyword : Token} {b a ts us : List Token}
      {put : Expr → Expr} {s s' : Stmt} {dangling : Bool} (hIf : keyword.kind = .ifKw)
      (hElse : elseKeyword.kind = .elseKw) :
      ConditionGap m b a put → StmtTree (.statement false) ts s →
      StmtTree (.statement dangling) us s' →
      StmtGap (some m) (.statement dangling) (keyword :: b) (a ++ (ts ++ elseKeyword :: us))
        fun x => .ifElse (put x) s (some s')
  | ifElseFirst {hole : Option Nonterminal} {keyword elseKeyword : Token} {b a cs us : List Token}
      {put : Expr → Stmt} {c : Expr} {s' : Stmt} {dangling : Bool} (hIf : keyword.kind = .ifKw)
      (hElse : elseKeyword.kind = .elseKw) :
      ConditionTree cs c → StmtGap hole (.statement false) b a put →
      StmtTree (.statement dangling) us s' →
      StmtGap hole (.statement dangling) (keyword :: (cs ++ b)) (a ++ elseKeyword :: us)
        fun x => .ifElse c (put x) (some s')
  | ifElseSecond {hole : Option Nonterminal} {keyword elseKeyword : Token} {b a cs ts : List Token}
      {put : Expr → Stmt} {c : Expr} {s : Stmt} {dangling : Bool} (hIf : keyword.kind = .ifKw)
      (hElse : elseKeyword.kind = .elseKw) :
      ConditionTree cs c → StmtTree (.statement false) ts s →
      StmtGap hole (.statement dangling) b a put →
      StmtGap hole (.statement dangling) (keyword :: (cs ++ (ts ++ elseKeyword :: b))) a
        fun x => .ifElse c s (some (put x))
  | whileCondition {m : Nonterminal} {keyword : Token} {b a ts : List Token} {put : Expr → Expr}
      {s : Stmt} {dangling : Bool} (hWhile : keyword.kind = .whileKw) :
      ConditionGap m b a put → StmtTree (.statement dangling) ts s →
      StmtGap (some m) (.statement dangling) (keyword :: b) (a ++ ts)
        fun x => .whileLoop (put x) s
  | whileBody {hole : Option Nonterminal} {keyword : Token} {b a cs : List Token}
      {put : Expr → Stmt} {c : Expr} {dangling : Bool} (hWhile : keyword.kind = .whileKw) :
      ConditionTree cs c → StmtGap hole (.statement dangling) b a put →
      StmtGap hole (.statement dangling) (keyword :: (cs ++ b)) a fun x => .whileLoop c (put x)
  | forInitializer {m : Nonterminal} {keyword left semicolon right : Token}
      {b a cs us ts : List Token} {put : Expr → Stmt} {condition increment : Option Expr}
      {s : Stmt} {dangling : Bool} (hFor : keyword.kind = .forKw) (hLeft : left.kind = .leftParen)
      (hSemicolon : semicolon.kind = .semicolon) (hRight : right.kind = .rightParen) :
      ForInitGap m b a put → OptionalTree cs condition → OptionalTree us increment →
      StmtTree (.statement dangling) ts s →
      StmtGap (some m) (.statement dangling) (keyword :: left :: b)
        (a ++ (cs ++ semicolon :: (us ++ right :: ts)))
        fun x => expandFor (some (put x)) condition increment s
  | forCondition {m : Nonterminal} {keyword left semicolon right : Token}
      {b a is us ts : List Token} {put : Expr → Expr} {initializer : Option Stmt}
      {increment : Option Expr} {s : Stmt} {dangling : Bool} (hFor : keyword.kind = .forKw)
      (hLeft : left.kind = .leftParen) (hSemicolon : semicolon.kind = .semicolon)
      (hRight : right.kind = .rightParen) :
      ForInitTree is initializer → ExprGap m .expression b a put → OptionalTree us increment →
      StmtTree (.statement dangling) ts s →
      StmtGap (some m) (.statement dangling) (keyword :: left :: (is ++ b))
        (a ++ semicolon :: (us ++ right :: ts))
        fun x => expandFor initializer (some (put x)) increment s
  | forNoCondition {keyword left semicolon right : Token} {is us ts : List Token}
      {initializer : Option Stmt} {increment : Option Expr} {s : Stmt} {dangling : Bool}
      (hFor : keyword.kind = .forKw) (hLeft : left.kind = .leftParen)
      (hSemicolon : semicolon.kind = .semicolon) (hRight : right.kind = .rightParen) :
      ForInitTree is initializer → OptionalTree us increment →
      StmtTree (.statement dangling) ts s →
      StmtGap none (.statement dangling) (keyword :: left :: is)
        (semicolon :: (us ++ right :: ts)) fun x => expandFor initializer (some x) increment s
  | forIncrement {m : Nonterminal} {keyword left semicolon right : Token}
      {b a is cs ts : List Token} {put : Expr → Expr} {initializer : Option Stmt}
      {condition : Option Expr} {s : Stmt} {dangling : Bool} (hFor : keyword.kind = .forKw)
      (hLeft : left.kind = .leftParen) (hSemicolon : semicolon.kind = .semicolon)
      (hRight : right.kind = .rightParen) :
      ForInitTree is initializer → OptionalTree cs condition → ExprGap m .expression b a put →
      StmtTree (.statement dangling) ts s →
      StmtGap (some m) (.statement dangling) (keyword :: left :: (is ++ (cs ++ semicolon :: b)))
        (a ++ right :: ts) fun x => expandFor initializer condition (some (put x)) s
  | forBody {hole : Option Nonterminal} {keyword left semicolon right : Token}
      {b a is cs us : List Token} {put : Expr → Stmt} {initializer : Option Stmt}
      {condition increment : Option Expr} {dangling : Bool} (hFor : keyword.kind = .forKw)
      (hLeft : left.kind = .leftParen) (hSemicolon : semicolon.kind = .semicolon)
      (hRight : right.kind = .rightParen) :
      ForInitTree is initializer → OptionalTree cs condition → OptionalTree us increment →
      StmtGap hole (.statement dangling) b a put →
      StmtGap hole (.statement dangling)
        (keyword :: left :: (is ++ (cs ++ semicolon :: (us ++ right :: b)))) a
        fun x => expandFor initializer condition increment (put x)

/-- What stands in a gap: an expression with its tokens, or a condition that was left out. -/
inductive Fills : Option Nonterminal → List Token → Expr → Prop where
  | written {m : Nonterminal} {us : List Token} {x : Expr} :
      ExprTree m us x → Fills (some m) us x
  | implied : Fills none [] (.literal (.bool true))

/-- Declarations with one more among them. -/
theorem parts_insert {front back : List (List Token × Stmt)} {ts : List Token} {s : Stmt}
    (hParts : ∀ part ∈ front ++ back, StmtTree .declaration part.1 part.2)
    (hPart : StmtTree .declaration ts s) :
    ∀ part ∈ front ++ (ts, s) :: back, StmtTree .declaration part.1 part.2 := by
  rw [List.forall_mem_append] at hParts
  rw [List.forall_mem_append, List.forall_mem_cons]
  exact ⟨hParts.1, hPart, hParts.2⟩

/-- A gap with what it takes in it is a declaration or a statement. -/
theorem StmtGap.fill {hole : Option Nonterminal} {form : Form} {b a us : List Token}
    {put : Expr → Stmt} {x : Expr} (hGap : StmtGap hole form b a put) (h : Fills hole us x) :
    StmtTree form (b ++ (us ++ a)) (put x) := by
  induction hGap with
  | varDecl hGap =>
    obtain ⟨hTree⟩ := h
    exact .varDecl (hGap.fill hTree)
  | statement hGap ih => exact .statement (ih h)
  | expression hGap =>
    obtain ⟨hTree⟩ := h
    exact .expression (hGap.fill hTree)
  | print hPrint hEnd hGap =>
    obtain ⟨hTree⟩ := h
    simpa using StmtTree.print hPrint hEnd (hGap.fill hTree)
  | block front back hLeft hRight hParts hGap ih =>
    simpa using StmtTree.block _ hLeft hRight (parts_insert hParts (ih h))
  | ifCondition hIf hGap hBranch =>
    obtain ⟨hTree⟩ := h
    simpa using StmtTree.ifThen hIf (hGap.fill hTree) hBranch
  | ifBranch hIf hCondition hGap ih => simpa using StmtTree.ifThen hIf hCondition (ih h)
  | ifElseCondition hIf hElse hGap hFirst hSecond =>
    obtain ⟨hTree⟩ := h
    simpa using StmtTree.ifElse hIf hElse (hGap.fill hTree) hFirst hSecond
  | ifElseFirst hIf hElse hCondition hGap hSecond ih =>
    simpa using StmtTree.ifElse hIf hElse hCondition (ih h) hSecond
  | ifElseSecond hIf hElse hCondition hFirst hGap ih =>
    simpa using StmtTree.ifElse hIf hElse hCondition hFirst (ih h)
  | whileCondition hWhile hGap hBody =>
    obtain ⟨hTree⟩ := h
    simpa using StmtTree.whileLoop hWhile (hGap.fill hTree) hBody
  | whileBody hWhile hCondition hGap ih => simpa using StmtTree.whileLoop hWhile hCondition (ih h)
  | forInitializer hFor hLeft hSemicolon hRight hGap hCondition hIncrement hBody =>
    obtain ⟨hTree⟩ := h
    simpa using StmtTree.forLoop hFor hLeft hSemicolon hRight (hGap.fill hTree) hCondition
      hIncrement hBody
  | forCondition hFor hLeft hSemicolon hRight hInitializer hGap hIncrement hBody =>
    obtain ⟨hTree⟩ := h
    simpa using StmtTree.forLoop hFor hLeft hSemicolon hRight hInitializer
      (.present (hGap.fill hTree)) hIncrement hBody
  | forNoCondition hFor hLeft hSemicolon hRight hInitializer hIncrement hBody =>
    obtain ⟨⟩ := h
    have hLoop :=
      StmtTree.forLoop hFor hLeft hSemicolon hRight hInitializer .absent hIncrement hBody
    exact hLoop
  | forIncrement hFor hLeft hSemicolon hRight hInitializer hCondition hGap hBody =>
    obtain ⟨hTree⟩ := h
    simpa using StmtTree.forLoop hFor hLeft hSemicolon hRight hInitializer hCondition
      (.present (hGap.fill hTree)) hBody
  | forBody hFor hLeft hSemicolon hRight hInitializer hCondition hIncrement hGap ih =>
    simpa using StmtTree.forLoop hFor hLeft hSemicolon hRight hInitializer hCondition hIncrement
      (ih h)

-- ---------------------------------------------------------------------------
-- Programs
-- ---------------------------------------------------------------------------

/-- A program with an expression left out of one of its declarations. -/
inductive ProgramGap (hole : Option Nonterminal) :
    List Token → List Token → (Expr → List Stmt) → Prop where
  | mk {b a : List Token} {put : Expr → Stmt} (front back : List (List Token × Stmt))
      (hParts : ∀ part ∈ front ++ back, StmtTree .declaration part.1 part.2) :
      StmtGap hole .declaration b a put →
      ProgramGap hole (front.flatMap Prod.fst ++ b) (a ++ back.flatMap Prod.fst)
        fun x => front.map Prod.snd ++ put x :: back.map Prod.snd

/-- A gap with what it takes in it is a program. -/
theorem ProgramGap.fill {hole : Option Nonterminal} {b a us : List Token}
    {put : Expr → List Stmt} {x : Expr} (hGap : ProgramGap hole b a put) (h : Fills hole us x) :
    ProgramTree (b ++ (us ++ a)) (put x) := by
  obtain ⟨front, back, hParts, hGap⟩ := hGap
  refine ⟨_, parts_insert hParts (hGap.fill h), ?_, ?_⟩
  · simp
  · simp

/-- Where an expression was read, it is read between parentheses as well. -/
theorem Fills.parenthesised {m : Nonterminal} {us : List Token} {x : Expr} {left right : Token}
    (h : ExprTree m us x) (hLeft : left.kind = .leftParen) (hRight : right.kind = .rightParen) :
    Fills (some m) (left :: (us ++ [right])) (.grouping x) :=
  .written (h.of_primary (.group hLeft hRight h.toExpression))

end Scriptlet.Grammar
