import Scriptlet.Proofs.Grammar.Gaps
import Scriptlet.Proofs.Tree.Context

/-!
# Scriptlet — the tokens of an expression in a tree

Wherever an expression stands in a tree, it fills a gap in the derivation of the
tree: it was read from some of the tokens, and the rest of the tree around it was
read from those before and behind them. The only exception is the condition of a
`for` loop that left it out. The clauses of a `for` loop do not stand in the tree
in the order of their tokens.

## Results

* `exists_exprGap`          — expressions in expressions.
* `fill_eq_expandFor`       — the places in what a `for` loop becomes.
* `exists_stmtGap`, `exists_programGap` — expressions in statements and programs.
-/

namespace Scriptlet.Grammar

open Scriptlet.Parse (Level)

-- ---------------------------------------------------------------------------
-- Expressions in expressions
-- ---------------------------------------------------------------------------

/-- An expression is its own tokens' with nothing around it. -/
theorem exists_here {n : Nonterminal} {ts : List Token} {e x : Expr} (h : ExprTree n ts e)
    (hFill : Expr.Context.here.fill x = e) :
    ∃ m b us a, ts = b ++ (us ++ a) ∧ ExprGap m n b a Expr.Context.here.fill ∧
      ExprTree m us x := by
  cases hFill
  exact ⟨n, [], ts, [], by simp, .here, h⟩

/-- The node of a level keeps an operator between two operands. -/
theorem BinaryLevel.node_eq {l : Level} {operators : List TokenKind} {below : Nonterminal}
    {node : Expr → Token → Expr → Expr} (hLevel : BinaryLevel l operators below node) :
    node = .binary ∨ node = .logical := by
  cases hLevel with
  | or | and => exact .inr rfl
  | equality | comparison | term | factor => exact .inl rfl

/-- A place in such a node is the node's own, or it is in one of the operands. -/
theorem BinaryLevel.fill_eq_node {l : Level} {operators : List TokenKind} {below : Nonterminal}
    {node : Expr → Token → Expr → Expr} (hLevel : BinaryLevel l operators below node)
    {c : Expr.Context} {x left right : Expr} {op : Token} (h : c.fill x = node left op right) :
    c = .here ∨
      (∃ d : Expr.Context, d.fill x = left ∧ c.fill = fun y => node (d.fill y) op right) ∨
      ∃ d : Expr.Context, d.fill x = right ∧ c.fill = fun y => node left op (d.fill y) := by
  rcases hLevel.node_eq with rfl | rfl
  · cases c with
    | here => exact .inl rfl
    | binaryLeft d o r =>
      cases h
      exact .inr (.inl ⟨d, rfl, rfl⟩)
    | binaryRight l o d =>
      cases h
      exact .inr (.inr ⟨d, rfl, rfl⟩)
    | _ => cases h
  · cases c with
    | here => exact .inl rfl
    | logicalLeft d o r =>
      cases h
      exact .inr (.inl ⟨d, rfl, rfl⟩)
    | logicalRight l o d =>
      cases h
      exact .inr (.inr ⟨d, rfl, rfl⟩)
    | _ => cases h

/-- Every expression inside another one was read from tokens, which the rest was read around. -/
theorem exists_exprGap {n : Nonterminal} {ts : List Token} {e : Expr} (h : ExprTree n ts e)
    {c : Expr.Context} {x : Expr} (hFill : c.fill x = e) :
    ∃ m b us a, ts = b ++ (us ++ a) ∧ ExprGap m n b a c.fill ∧ ExprTree m us x := by
  induction h generalizing c with
  | expression h ih =>
    obtain ⟨m, b, us, a, hTokens, hGap, hTree⟩ := ih hFill
    exact ⟨m, b, us, a, hTokens, .expression hGap, hTree⟩
  | noAssign h ih =>
    obtain ⟨m, b, us, a, hTokens, hGap, hTree⟩ := ih hFill
    exact ⟨m, b, us, a, hTokens, .noAssign hGap, hTree⟩
  | operand hLevel h ih =>
    obtain ⟨m, b, us, a, hTokens, hGap, hTree⟩ := ih hFill
    exact ⟨m, b, us, a, hTokens, .operand hLevel hGap, hTree⟩
  | noUnary h ih =>
    obtain ⟨m, b, us, a, hTokens, hGap, hTree⟩ := ih hFill
    exact ⟨m, b, us, a, hTokens, .noUnary hGap, hTree⟩
  | assign hName hEquals h ih =>
    cases c with
    | here => exact exists_here (.assign hName hEquals h) hFill
    | assign name d =>
      cases hFill
      obtain ⟨m, b, us, a, rfl, hGap, hTree⟩ := ih rfl
      exact ⟨m, _, us, a, rfl, .assign hName hEquals hGap, hTree⟩
    | _ => cases hFill
  | @operator l operators below node ts us op left right hLevel hOp hLeft hRight ihLeft ihRight =>
    rcases hLevel.fill_eq_node hFill with rfl | ⟨d, hd, hc⟩ | ⟨d, hd, hc⟩
    · exact exists_here (.operator hLevel hOp hLeft hRight) hFill
    · obtain ⟨m, b, us, a, rfl, hGap, hTree⟩ := ihLeft hd
      rw [hc]
      refine ⟨m, b, us, _, ?_, .left hLevel hOp hGap hRight, hTree⟩
      simp
    · obtain ⟨m, b, us, a, rfl, hGap, hTree⟩ := ihRight hd
      rw [hc]
      refine ⟨m, _, us, a, ?_, .right hLevel hOp hLeft hGap, hTree⟩
      simp
  | unary hOp h ih =>
    cases c with
    | here => exact exists_here (.unary hOp h) hFill
    | unary op d =>
      cases hFill
      obtain ⟨m, b, us, a, rfl, hGap, hTree⟩ := ih rfl
      exact ⟨m, _, us, a, rfl, .unary hOp hGap, hTree⟩
    | _ => cases hFill
  | group hLeft hRight h ih =>
    cases c with
    | here => exact exists_here (.group hLeft hRight h) hFill
    | grouping d =>
      cases hFill
      obtain ⟨m, b, us, a, rfl, hGap, hTree⟩ := ih rfl
      refine ⟨m, _, us, _, ?_, .group hLeft hRight hGap, hTree⟩
      simp
    | _ => cases hFill
  | value | trueValue | falseValue | nilValue | name =>
    cases c with
    | here => exact exists_here (by constructor; assumption) hFill
    | _ => cases hFill

-- ---------------------------------------------------------------------------
-- Expressions in clauses
-- ---------------------------------------------------------------------------

section

variable {ts : List Token} {x e : Expr} {s : Stmt} {c : Expr.Context}

theorem exists_conditionGap (h : ConditionTree ts e) (hFill : c.fill x = e) :
    ∃ m b us a, ts = b ++ (us ++ a) ∧ ConditionGap m b a c.fill ∧ ExprTree m us x := by
  obtain ⟨hLeft, hRight, hTree⟩ := h
  obtain ⟨m, b, us, a, rfl, hGap, hSpan⟩ := exists_exprGap hTree hFill
  refine ⟨m, _, us, _, ?_, .mk hLeft hRight hGap, hSpan⟩
  simp

theorem exists_varDeclGap {c : Stmt.Context} (h : VarDeclTree ts s) (hFill : c.fill x = s) :
    ∃ m b us a, ts = b ++ (us ++ a) ∧ VarDeclGap m b a c.fill ∧ ExprTree m us x := by
  cases h with
  | bare hVar hName hEnd => cases c with | _ => cases hFill
  | initialized hVar hName hEquals hEnd hTree =>
    cases c with
    | varDecl name d =>
      cases hFill
      obtain ⟨m, b, us, a, rfl, hGap, hSpan⟩ := exists_exprGap hTree rfl
      refine ⟨m, _, us, _, ?_, .mk hVar hName hEquals hEnd hGap, hSpan⟩
      simp
    | _ => cases hFill

theorem exists_exprStmtGap {c : Stmt.Context} (h : ExprStmtTree ts s) (hFill : c.fill x = s) :
    ∃ m b us a, ts = b ++ (us ++ a) ∧ ExprStmtGap m b a c.fill ∧ ExprTree m us x := by
  obtain ⟨hEnd, hTree⟩ := h
  cases c with
  | expression d =>
    cases hFill
    obtain ⟨m, b, us, a, rfl, hGap, hSpan⟩ := exists_exprGap hTree rfl
    refine ⟨m, b, us, _, ?_, .mk hEnd hGap, hSpan⟩
    simp
  | _ => cases hFill

theorem exists_forInitGap {c : Stmt.Context} (h : ForInitTree ts (some (c.fill x))) :
    ∃ m b us a, ts = b ++ (us ++ a) ∧ ForInitGap m b a c.fill ∧ ExprTree m us x := by
  cases h with
  | varDecl h =>
    obtain ⟨m, b, us, a, hTokens, hGap, hSpan⟩ := exists_varDeclGap h rfl
    exact ⟨m, b, us, a, hTokens, .varDecl hGap, hSpan⟩
  | exprStmt h =>
    obtain ⟨m, b, us, a, hTokens, hGap, hSpan⟩ := exists_exprStmtGap h rfl
    exact ⟨m, b, us, a, hTokens, .exprStmt hGap, hSpan⟩

end

-- ---------------------------------------------------------------------------
-- Places in what a loop becomes
-- ---------------------------------------------------------------------------

section

variable {c : Stmt.Context} {x : Expr} {s : Stmt}

theorem fill_eq_expression {e : Expr} (h : c.fill x = .expression e) :
    ∃ d : Expr.Context, d.fill x = e ∧ c.fill = fun y => .expression (d.fill y) := by
  cases c with
  | expression d =>
    cases h
    exact ⟨d, rfl, rfl⟩
  | _ => cases h

theorem fill_eq_whileLoop {condition : Expr} (h : c.fill x = .whileLoop condition s) :
    (∃ d : Expr.Context, d.fill x = condition ∧ c.fill = fun y => .whileLoop (d.fill y) s) ∨
      ∃ d : Stmt.Context, d.fill x = s ∧ c.fill = fun y => .whileLoop condition (d.fill y) := by
  cases c with
  | whileCondition d body =>
    cases h
    exact .inl ⟨d, rfl, rfl⟩
  | whileBody condition d =>
    cases h
    exact .inr ⟨d, rfl, rfl⟩
  | _ => cases h

theorem fill_eq_pair {t : Stmt} (h : c.fill x = .block [s, t]) :
    (∃ d : Stmt.Context, d.fill x = s ∧ c.fill = fun y => .block [d.fill y, t]) ∨
      ∃ d : Stmt.Context, d.fill x = t ∧ c.fill = fun y => .block [s, d.fill y] := by
  cases c with
  | block front d back =>
    have hBody : front ++ d.fill x :: back = [s, t] := Stmt.block.inj h
    match front, hBody with
    | [], hBody =>
      obtain ⟨hHere, rfl⟩ := List.cons.inj hBody
      exact .inl ⟨d, hHere, rfl⟩
    | [first], hBody =>
      obtain ⟨rfl, hRest⟩ := List.cons.inj hBody
      obtain ⟨hHere, rfl⟩ := List.cons.inj hRest
      exact .inr ⟨d, hHere, rfl⟩
    | first :: second :: rest, hBody => simp at hBody
  | _ => cases h

/-- A place in what a `for` loop without initializer becomes. -/
theorem fill_eq_loop {condition increment : Option Expr}
    (h : c.fill x = expandFor none condition increment s) :
    (∃ d : Expr.Context, d.fill x = condition.getD (.literal (.bool true)) ∧
        c.fill = fun y => expandFor none (some (d.fill y)) increment s) ∨
      (∃ d : Expr.Context, increment = some (d.fill x) ∧
        c.fill = fun y => expandFor none condition (some (d.fill y)) s) ∨
      ∃ d : Stmt.Context, d.fill x = s ∧
        c.fill = fun y => expandFor none condition increment (d.fill y) := by
  rcases fill_eq_whileLoop h with ⟨d, hHere, hc⟩ | ⟨d, hRound, hc⟩
  · exact .inl ⟨d, hHere, hc⟩
  cases increment with
  | none => exact .inr (.inr ⟨d, hRound, hc⟩)
  | some e =>
    rcases fill_eq_pair hRound with ⟨g, hBody, hd⟩ | ⟨g, hStep, hd⟩
    · refine .inr (.inr ⟨g, hBody, ?_⟩)
      rw [hc, hd]
      rfl
    · obtain ⟨f, rfl, hg⟩ := fill_eq_expression hStep
      refine .inr (.inl ⟨f, rfl, ?_⟩)
      rw [hc, hd, hg]
      rfl

/-- A place in what a `for` loop becomes is in one of its clauses or in its body. -/
theorem fill_eq_expandFor {initializer : Option Stmt} {condition increment : Option Expr}
    (h : c.fill x = expandFor initializer condition increment s) :
    (∃ d : Stmt.Context, initializer = some (d.fill x) ∧
        c.fill = fun y => expandFor (some (d.fill y)) condition increment s) ∨
      (∃ d : Expr.Context, d.fill x = condition.getD (.literal (.bool true)) ∧
        c.fill = fun y => expandFor initializer (some (d.fill y)) increment s) ∨
      (∃ d : Expr.Context, increment = some (d.fill x) ∧
        c.fill = fun y => expandFor initializer condition (some (d.fill y)) s) ∨
      ∃ d : Stmt.Context, d.fill x = s ∧
        c.fill = fun y => expandFor initializer condition increment (d.fill y) := by
  cases initializer with
  | none => exact .inr (fill_eq_loop h)
  | some first =>
    rcases fill_eq_pair h with ⟨d, rfl, hc⟩ | ⟨g, hLoop, hc⟩
    · exact .inl ⟨d, rfl, hc⟩
    · rcases fill_eq_loop hLoop with ⟨d, hHere, hg⟩ | ⟨d, hHere, hg⟩ | ⟨d, hHere, hg⟩
      · refine .inr (.inl ⟨d, hHere, ?_⟩)
        rw [hc, hg]
        rfl
      · refine .inr (.inr (.inl ⟨d, hHere, ?_⟩))
        rw [hc, hg]
        rfl
      · refine .inr (.inr (.inr ⟨d, hHere, ?_⟩))
        rw [hc, hg]
        rfl

end

-- ---------------------------------------------------------------------------
-- Every expression fills a gap
-- ---------------------------------------------------------------------------

/-- The tokens of one of several declarations. -/
theorem exists_part {parts : List (List Token × Stmt)} {front back : List Stmt} {s : Stmt}
    (h : parts.map Prod.snd = front ++ s :: back) :
    ∃ fronts ts backs, parts = fronts ++ (ts, s) :: backs ∧ fronts.map Prod.snd = front ∧
      backs.map Prod.snd = back := by
  obtain ⟨fronts, others, rfl, hFront, hOthers⟩ := List.map_eq_append_iff.mp h
  obtain ⟨⟨ts, _⟩, backs, rfl, rfl, hBack⟩ := List.map_eq_cons_iff.mp hOthers
  exact ⟨fronts, ts, backs, rfl, hFront, hBack⟩

/-- Declarations without one of them. -/
theorem parts_erase {front back : List (List Token × Stmt)} {part : List Token × Stmt}
    (hParts : ∀ other ∈ front ++ part :: back, StmtTree .declaration other.1 other.2) :
    ∀ part ∈ front ++ back, StmtTree .declaration part.1 part.2 := by
  rw [List.forall_mem_append, List.forall_mem_cons] at hParts
  rw [List.forall_mem_append]
  exact ⟨hParts.1, hParts.2.2⟩

/--
Every expression in a statement was read from tokens, which the rest was read
around; or it is the condition that a `for` loop left out.
-/
theorem exists_stmtGap {form : Form} {ts : List Token} {s : Stmt} (h : StmtTree form ts s)
    {c : Stmt.Context} {x : Expr} (hFill : c.fill x = s) :
    ∃ hole b us a, ts = b ++ (us ++ a) ∧ StmtGap hole form b a c.fill ∧ Fills hole us x := by
  induction h generalizing c with
  | varDecl h =>
    obtain ⟨m, b, us, a, hTokens, hGap, hTree⟩ := exists_varDeclGap h hFill
    exact ⟨some m, b, us, a, hTokens, .varDecl hGap, .written hTree⟩
  | statement h ih =>
    obtain ⟨hole, b, us, a, hTokens, hGap, hFills⟩ := ih hFill
    exact ⟨hole, b, us, a, hTokens, .statement hGap, hFills⟩
  | expression h =>
    obtain ⟨m, b, us, a, hTokens, hGap, hTree⟩ := exists_exprStmtGap h hFill
    exact ⟨some m, b, us, a, hTokens, .expression hGap, .written hTree⟩
  | print hPrint hEnd h =>
    cases c with
    | print d =>
      cases hFill
      obtain ⟨m, b, us, a, rfl, hGap, hTree⟩ := exists_exprGap h rfl
      refine ⟨some m, _, us, _, ?_, .print hPrint hEnd hGap, .written hTree⟩
      simp
    | _ => cases hFill
  | block parts hLeft hRight hParts ih =>
    cases c with
    | block front d back =>
      obtain ⟨fronts, vs, backs, rfl, rfl, rfl⟩ := exists_part (Stmt.block.inj hFill).symm
      obtain ⟨hole, b, us, a, rfl, hGap, hFills⟩ := ih (vs, d.fill x) (by simp) rfl
      refine ⟨hole, _, us, _, ?_,
        .block fronts backs hLeft hRight (parts_erase hParts) hGap, hFills⟩
      simp
    | _ => cases hFill
  | ifThen hIf hCondition hBranch ih =>
    cases c with
    | ifCondition d =>
      cases hFill
      obtain ⟨m, b, us, a, rfl, hGap, hTree⟩ := exists_conditionGap hCondition rfl
      refine ⟨some m, _, us, _, ?_, .ifCondition hIf hGap hBranch, .written hTree⟩
      simp
    | ifThen e d =>
      cases hFill
      obtain ⟨hole, b, us, a, rfl, hGap, hFills⟩ := ih rfl
      refine ⟨hole, _, us, _, ?_, .ifBranch hIf hCondition hGap, hFills⟩
      simp
    | _ => cases hFill
  | ifElse hIf hElse hCondition hFirst hSecond ihFirst ihSecond =>
    cases c with
    | ifCondition d =>
      cases hFill
      obtain ⟨m, b, us, a, rfl, hGap, hTree⟩ := exists_conditionGap hCondition rfl
      refine ⟨some m, _, us, _, ?_, .ifElseCondition hIf hElse hGap hFirst hSecond,
        .written hTree⟩
      simp
    | ifThen e d =>
      cases hFill
      obtain ⟨hole, b, us, a, rfl, hGap, hFills⟩ := ihFirst rfl
      refine ⟨hole, _, us, _, ?_, .ifElseFirst hIf hElse hCondition hGap hSecond, hFills⟩
      simp
    | ifElse e first d =>
      cases hFill
      obtain ⟨hole, b, us, a, rfl, hGap, hFills⟩ := ihSecond rfl
      refine ⟨hole, _, us, _, ?_, .ifElseSecond hIf hElse hCondition hFirst hGap, hFills⟩
      simp
    | _ => cases hFill
  | whileLoop hWhile hCondition hBody ih =>
    rcases fill_eq_whileLoop hFill with ⟨d, hHere, hc⟩ | ⟨d, hHere, hc⟩
    · obtain ⟨m, b, us, a, rfl, hGap, hTree⟩ := exists_conditionGap hCondition hHere
      rw [hc]
      refine ⟨some m, _, us, _, ?_, .whileCondition hWhile hGap hBody, .written hTree⟩
      simp
    · obtain ⟨hole, b, us, a, rfl, hGap, hFills⟩ := ih hHere
      rw [hc]
      refine ⟨hole, _, us, _, ?_, .whileBody hWhile hCondition hGap, hFills⟩
      simp
  | forLoop hFor hLeft hSemicolon hRight hInitializer hCondition hIncrement hBody ih =>
    rcases fill_eq_expandFor hFill with
      ⟨d, rfl, hc⟩ | ⟨d, hHere, hc⟩ | ⟨d, rfl, hc⟩ | ⟨d, hHere, hc⟩
    · obtain ⟨m, b, us, a, rfl, hGap, hTree⟩ := exists_forInitGap hInitializer
      rw [hc]
      refine ⟨some m, _, us, _, ?_,
        .forInitializer hFor hLeft hSemicolon hRight hGap hCondition hIncrement hBody,
        .written hTree⟩
      simp
    · rw [hc]
      cases hCondition with
      | absent =>
        cases d with
        | here =>
          obtain rfl := hHere
          refine ⟨none, _, [], _, ?_,
            .forNoCondition hFor hLeft hSemicolon hRight hInitializer hIncrement hBody, .implied⟩
          simp
        | _ => cases hHere
      | present hCondition =>
        obtain ⟨m, b, us, a, rfl, hGap, hTree⟩ := exists_exprGap hCondition hHere
        refine ⟨some m, _, us, _, ?_,
          .forCondition hFor hLeft hSemicolon hRight hInitializer hGap hIncrement hBody,
          .written hTree⟩
        simp
    · rw [hc]
      cases hIncrement with
      | present hIncrement =>
        obtain ⟨m, b, us, a, rfl, hGap, hTree⟩ := exists_exprGap hIncrement rfl
        refine ⟨some m, _, us, _, ?_,
          .forIncrement hFor hLeft hSemicolon hRight hInitializer hCondition hGap hBody,
          .written hTree⟩
        simp
    · rw [hc]
      obtain ⟨hole, b, us, a, rfl, hGap, hFills⟩ := ih hHere
      refine ⟨hole, _, us, _, ?_,
        .forBody hFor hLeft hSemicolon hRight hInitializer hCondition hIncrement hGap, hFills⟩
      simp

/-- Every expression of a program fills a gap in it. -/
theorem exists_programGap {ts : List Token} {statements : List Stmt}
    (h : ProgramTree ts statements) {c : Stmt.ListContext} {x : Expr}
    (hFill : c.fill x = statements) :
    ∃ hole b us a, ts = b ++ (us ++ a) ∧ ProgramGap hole b a c.fill ∧ Fills hole us x := by
  obtain ⟨parts, hParts, rfl, rfl⟩ := h
  obtain ⟨front, d, back⟩ := c
  obtain ⟨fronts, vs, backs, rfl, rfl, rfl⟩ := exists_part hFill.symm
  have hPart : StmtTree .declaration vs (d.fill x) := hParts (vs, d.fill x) (by simp)
  obtain ⟨hole, b, us, a, rfl, hGap, hFills⟩ := exists_stmtGap hPart rfl
  refine ⟨hole, _, us, _, ?_, .mk fronts backs (parts_erase hParts) hGap, hFills⟩
  simp

end Scriptlet.Grammar
