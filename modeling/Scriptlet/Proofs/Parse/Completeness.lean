import Scriptlet.Proofs.Parse.Soundness

/-!
# Scriptlet — what has a tree is read

The tokens of a tree are read as that tree, whatever tokens follow, as long as
the next one could not continue the construct: an operator would be taken up by
the expression in front of it, and an `else` by a dangling statement. A chain of
operators is read from the left, so the tree of its beginning only says that the
chain goes on from there; this is what the induction carries for the levels.

## Results

* `exprTree_starts`, `stmtTree_starts` — with which tokens a construct starts.
* `Rule.continuedBy`        — the tokens that an expression takes up.
* `reads_of_exprTree`       — expressions.
* `reads_of_stmtTree`       — declarations and statements.
* `reads_of_programTree`    — programs.
-/

namespace Scriptlet.Parse

open Grammar Step

-- ---------------------------------------------------------------------------
-- First tokens
-- ---------------------------------------------------------------------------

/-- The kinds with which an expression starts. -/
def startsExpression (kind : TokenKind) : Prop :=
  kind ∈ [TokenKind.bang, .minus, .number, .string, .trueKw, .falseKw, .nilKw, .identifier,
    .leftParen]

/-- A kind with which no expression starts. -/
theorem startsExpression.ne {kind other : TokenKind} (h : startsExpression kind)
    (hOther : other ∉ [TokenKind.bang, .minus, .number, .string, .trueKw, .falseKw, .nilKw,
      .identifier, .leftParen]) : kind ≠ other := by
  intro hKind
  subst hKind
  exact hOther h

theorem exprTree_starts {n : Nonterminal} {ts : List Token} {e : Expr} (h : ExprTree n ts e) :
    Next startsExpression ts := by
  induction h with
  | expression h ih => exact ih
  | assign hName hEquals h ih => exact ⟨_, _, rfl, by simp [startsExpression, hName]⟩
  | noAssign h ih => exact ih
  | operand hLevel h ih => exact ih
  | operator hLevel hOp hLeft hRight ihLeft ihRight =>
    obtain ⟨t, after, rfl, ht⟩ := ihLeft
    exact ⟨t, _, rfl, ht⟩
  | unary hOp h ih =>
    refine ⟨_, _, rfl, ?_⟩
    rcases hOp with hOp | hOp
    · simp [startsExpression, hOp]
    · simp [startsExpression, hOp]
  | noUnary h ih => exact ih
  | value hKind =>
    refine ⟨_, _, rfl, ?_⟩
    rcases hKind with hKind | hKind
    · simp [startsExpression, hKind]
    · simp [startsExpression, hKind]
  | trueValue hKind => exact ⟨_, _, rfl, by simp [startsExpression, hKind]⟩
  | falseValue hKind => exact ⟨_, _, rfl, by simp [startsExpression, hKind]⟩
  | nilValue hKind => exact ⟨_, _, rfl, by simp [startsExpression, hKind]⟩
  | name hKind => exact ⟨_, _, rfl, by simp [startsExpression, hKind]⟩
  | group hLeft hRight h ih => exact ⟨_, _, rfl, by simp [startsExpression, hLeft]⟩

/-- No declaration starts with what ends a block or a file, or with an `else`. -/
theorem stmtTree_starts {form : Form} {ts : List Token} {s : Stmt} (h : StmtTree form ts s) :
    Next (fun kind => kind ≠ .eof ∧ kind ≠ .rightBrace ∧ kind ≠ .elseKw ∧
      (form ≠ .declaration → kind ≠ .varKw)) ts := by
  induction h with
  | varDecl h =>
    cases h with
    | bare hVar hName hEnd => exact ⟨_, _, rfl, by simp [hVar]⟩
    | initialized hVar hName hEquals hEnd he => exact ⟨_, _, rfl, by simp [hVar]⟩
  | statement h ih =>
    obtain ⟨t, after, rfl, hEof, hBrace, hElse, -⟩ := ih
    exact ⟨t, after, rfl, hEof, hBrace, hElse, fun h => absurd rfl h⟩
  | expression h =>
    obtain ⟨hEnd, he⟩ := h
    obtain ⟨t, after, rfl, ht⟩ := exprTree_starts he
    refine ⟨t, _, rfl, ht.ne (by decide), ht.ne (by decide), ht.ne (by decide), fun _ => ?_⟩
    exact ht.ne (by decide)
  | print hPrint hEnd he => exact ⟨_, _, rfl, by simp [hPrint]⟩
  | block parts hLeft hRight hParts ih => exact ⟨_, _, rfl, by simp [hLeft]⟩
  | ifThen hIf hc h ih => exact ⟨_, _, rfl, by simp [hIf]⟩
  | ifElse hIf hElse hc hThen hBranch ihThen ihBranch => exact ⟨_, _, rfl, by simp [hIf]⟩
  | whileLoop hWhile hc h ih => exact ⟨_, _, rfl, by simp [hWhile]⟩
  | forLoop hFor hLeft hSemicolon hRight hInit hc hi h ih => exact ⟨_, _, rfl, by simp [hFor]⟩

-- ---------------------------------------------------------------------------
-- What continues an expression
-- ---------------------------------------------------------------------------

/-- Whether a rule takes up a token of a kind behind its expression. -/
def Rule.continuedBy : Rule → TokenKind → Prop
  | expression, kind | assignment, kind => kind = .equal ∨ ∃ l : Level, kind ∈ l.operators
  | level l, kind => ∃ m : Level, m.depth ≤ l.depth ∧ kind ∈ m.operators
  | operand l, kind => ∃ m : Level, m.depth < l.depth ∧ kind ∈ m.operators
  | unary, _ | primary, _ => False

/-- Each operator belongs to one level. -/
theorem level_unique {l m : Level} {kind : TokenKind} (hl : kind ∈ l.operators)
    (hm : kind ∈ m.operators) : l = m := by
  cases l <;> simp only [Level.operators, List.mem_cons, List.not_mem_nil, or_false] at hl <;>
    rcases hl with rfl | rfl | rfl | rfl <;> cases m <;> first | rfl | simp [Level.operators] at hm

/-- An operator of a level does not continue its operands. -/
theorem not_continuedBy_operand {l : Level} {kind : TokenKind} (h : kind ∈ l.operators) :
    ¬(Rule.operand l).continuedBy kind := by
  intro hContinued
  obtain ⟨m, hDepth, hm⟩ := hContinued
  have hLevel : l = m := level_unique h hm
  subst hLevel
  exact Nat.lt_irrefl _ hDepth

theorem continuedBy_below (l : Level) (kind : TokenKind) :
    l.below.continuedBy kind ↔ (Rule.operand l).continuedBy kind := by
  cases l with
  | factor =>
    refine iff_of_false id ?_
    intro h
    obtain ⟨m, hDepth, -⟩ := h
    exact Nat.not_lt_zero _ hDepth
  | or => exact exists_congr fun m => and_congr_left' Nat.lt_succ_iff.symm
  | and => exact exists_congr fun m => and_congr_left' Nat.lt_succ_iff.symm
  | equality => exact exists_congr fun m => and_congr_left' Nat.lt_succ_iff.symm
  | comparison => exact exists_congr fun m => and_congr_left' Nat.lt_succ_iff.symm
  | term => exact exists_congr fun m => and_congr_left' Nat.lt_succ_iff.symm

/-- The tokens that close what an expression stands in are no operators. -/
theorem not_mem_operators {kind : TokenKind}
    (h : kind ∈ [TokenKind.semicolon, .rightParen, .equal]) (l : Level) :
    kind ∉ l.operators := by
  simp only [List.mem_cons, List.not_mem_nil, or_false] at h
  rcases h with rfl | rfl | rfl <;> cases l <;> decide

-- ---------------------------------------------------------------------------
-- Expressions
-- ---------------------------------------------------------------------------

/-- A rule reads a tree in front of every token that does not continue it. -/
def Rule.ReadsBefore (rule : Rule) (ts : List Token) (e : Expr) : Prop :=
  ∀ ⦃rest : List Token⦄, Next (fun kind => ¬rule.continuedBy kind) rest →
    (rule.run (ts ++ rest)).Reads e rest

/-- Behind the beginning of a chain a level reads what the chain goes on with. -/
def Level.ReadsInChain (l : Level) (ts : List Token) (e : Expr) : Prop :=
  ∀ ⦃rest rest' tokens : List Token⦄ ⦃e' : Expr⦄ ⦃h : Shorter rest tokens⦄,
    Next (fun kind => ¬(Rule.operand l).continuedBy kind) rest →
    (chain l e rest h).Reads e' rest' → (level l (ts ++ rest)).Reads e' rest'

/-- A chain reads the same wherever it started. -/
theorem reads_chain_congr {l : Level} {left e : Expr} {tokens tokens' middle rest : List Token}
    {h : Shorter middle tokens} {h' : Shorter middle tokens'}
    (hReads : (chain l left middle h).Reads e rest) : (chain l left middle h').Reads e rest :=
  reads_chain.mpr (reads_chain.mp hReads)

theorem Level.ReadsInChain.readsBefore {l : Level} {ts : List Token} {e : Expr}
    (h : l.ReadsInChain ts e) : (Rule.level l).ReadsBefore ts e := by
  intro rest hNext
  obtain ⟨t, after, rfl, ht⟩ := hNext
  have hStops : (chain l e (t :: after) (shorter_tail t _)).Reads e (t :: after) := by
    refine reads_chain.mpr ⟨t, after, rfl, .inr ⟨?_, rfl, rfl⟩⟩
    intro hOp
    exact ht ⟨l, Nat.le_refl _, hOp⟩
  have hOperand : ¬(Rule.operand l).continuedBy t.kind := by
    intro hContinued
    obtain ⟨m, hDepth, hm⟩ := hContinued
    exact ht ⟨m, Nat.le_of_lt hDepth, hm⟩
  exact h ⟨t, after, rfl, hOperand⟩ hStops

/-- The first operand of a chain is a beginning of it. -/
theorem readsInChain_of_below {l : Level} {ts : List Token} {e : Expr}
    (h : l.below.ReadsBefore ts e) : l.ReadsInChain ts e := by
  intro rest rest' tokens e' hShorter hNext hChain
  obtain ⟨t, after, rfl, ht⟩ := hNext
  rw [← continuedBy_below] at ht
  have hOperand := reads_operand.mpr (h ⟨t, after, rfl, ht⟩)
  exact reads_level.mpr ⟨e, _, hOperand.shorter, hOperand, reads_chain_congr hChain⟩

/-- An operator and its right operand prolong the beginning of a chain. -/
theorem Level.ReadsInChain.operator {l : Level} {ts us : List Token} {op : Token}
    {left right : Expr} (hOp : op.kind ∈ l.operators) (hLeft : l.ReadsInChain ts left)
    (hRight : l.below.ReadsBefore us right) :
    l.ReadsInChain (ts ++ op :: us) (l.node left op right) := by
  intro rest rest' tokens e' hShorter hNext hChain
  obtain ⟨t, after, rfl, ht⟩ := hNext
  rw [List.append_assoc, List.cons_append]
  refine @hLeft _ _ (op :: op :: (us ++ t :: after)) _ (shorter_tail op _)
    ⟨op, _, rfl, not_continuedBy_operand hOp⟩ ?_
  rw [← continuedBy_below] at ht
  have hOperand := reads_operand.mpr (hRight ⟨t, after, rfl, ht⟩)
  refine reads_chain.mpr ⟨op, _, rfl, .inl ⟨hOp, right, _, hOperand.shorter, hOperand, ?_⟩⟩
  exact reads_chain_congr hChain

/-- An expression without binary operators is the beginning of a chain on every level. -/
theorem readsInChain_of_unary {ts : List Token} {e : Expr} (h : Rule.unary.ReadsBefore ts e)
    (l : Level) : l.ReadsInChain ts e := by
  have hFactor : Level.factor.ReadsInChain ts e := @readsInChain_of_below .factor _ _ h
  have hTerm : Level.term.ReadsInChain ts e := readsInChain_of_below hFactor.readsBefore
  have hComparison : Level.comparison.ReadsInChain ts e :=
    readsInChain_of_below hTerm.readsBefore
  have hEquality : Level.equality.ReadsInChain ts e :=
    readsInChain_of_below hComparison.readsBefore
  have hAnd : Level.and.ReadsInChain ts e := readsInChain_of_below hEquality.readsBefore
  cases l with
  | or => exact readsInChain_of_below hAnd.readsBefore
  | and => exact hAnd
  | equality => exact hEquality
  | comparison => exact hComparison
  | term => exact hTerm
  | factor => exact hFactor

/-- An expression that no operator is part of does not start with a unary one. -/
theorem readsBefore_unary {ts : List Token} {e : Expr} (h : Rule.primary.ReadsBefore ts e) :
    Rule.unary.ReadsBefore ts e := by
  intro rest hNext
  have hPrimary : (primary (ts ++ rest)).Reads e rest := h hNext
  obtain ⟨t, after, hEq, hCases⟩ := reads_primary.mp hPrimary
  refine reads_unary.mpr ⟨t, after, hEq, .inr ⟨?_, hPrimary⟩⟩
  intro hOp
  rcases hCases with ⟨value, hLiteral, -⟩ | ⟨hName, -⟩ | ⟨hParen, -⟩
  · rcases hOp with hOp | hOp
    · simp [literalOf?, hOp] at hLiteral
    · simp [literalOf?, hOp] at hLiteral
  · simp [hName] at hOp
  · simp [hParen] at hOp

/-- A token that is an expression by itself, in front of any other. -/
theorem readsBefore_literal {t : Token} {value : Value} (h : literalOf? t = some value) :
    Rule.primary.ReadsBefore [t] (.literal value) := by
  intro rest _
  exact reads_primary.mpr ⟨t, rest, rfl, .inl ⟨value, h, rfl, rfl⟩⟩

theorem readsBefore_name {t : Token} (h : t.kind = .identifier) :
    Rule.primary.ReadsBefore [t] (.variable t) := by
  intro rest _
  exact reads_primary.mpr ⟨t, rest, rfl, .inr (.inl ⟨h, rfl, rfl⟩)⟩

/-- What completeness says of the trees of a nonterminal. -/
def Completes : Nonterminal → List Token → Expr → Prop
  | .expression, ts, e => Rule.expression.ReadsBefore ts e
  | .assignment, ts, e => Rule.assignment.ReadsBefore ts e
  | .level l, ts, e => l.ReadsInChain ts e
  | .unary, ts, e => Rule.unary.ReadsBefore ts e
  | .primary, ts, e => Rule.primary.ReadsBefore ts e
  | _, _, _ => True

theorem readsBefore_below {l : Level} {operators : List TokenKind} {below : Nonterminal}
    {node : Expr → Token → Expr → Expr} (hLevel : BinaryLevel l operators below node)
    {ts : List Token} {e : Expr} (h : Completes below ts e) : l.below.ReadsBefore ts e := by
  cases hLevel with
  | factor => exact h
  | or => exact Level.ReadsInChain.readsBefore h
  | and => exact Level.ReadsInChain.readsBefore h
  | equality => exact Level.ReadsInChain.readsBefore h
  | comparison => exact Level.ReadsInChain.readsBefore h
  | term => exact Level.ReadsInChain.readsBefore h

/-- An assignment reads its target as an expression and then the value. -/
theorem readsBefore_assign {name equals : Token} {ts : List Token} {e : Expr}
    (hName : name.kind = .identifier) (hEquals : equals.kind = .equal)
    (h : Rule.assignment.ReadsBefore ts e) :
    Rule.assignment.ReadsBefore (name :: equals :: ts) (.assign name e) := by
  intro rest hNext
  have hTarget : Level.or.ReadsInChain [name] (.variable name) :=
    readsInChain_of_unary (readsBefore_unary (readsBefore_name hName)) .or
  have hStops : ¬(Rule.level .or).continuedBy equals.kind := by
    intro hContinued
    obtain ⟨m, -, hm⟩ := hContinued
    exact not_mem_operators (by simp [hEquals]) m hm
  have hOr : (level .or (name :: equals :: (ts ++ rest))).Reads (.variable name)
      (equals :: (ts ++ rest)) := hTarget.readsBefore ⟨equals, _, rfl, hStops⟩
  exact reads_assignment.mpr ⟨_, equals, _, hOr, .inl ⟨hEquals, e, h hNext, rfl⟩⟩

/-- An expression that no equals sign follows is no target. -/
theorem readsBefore_noAssign {ts : List Token} {e : Expr} (h : Level.or.ReadsInChain ts e) :
    Rule.assignment.ReadsBefore ts e := by
  intro rest hNext
  obtain ⟨t, after, rfl, ht⟩ := hNext
  have hEqual : t.kind ≠ .equal := fun hEqual => ht (.inl hEqual)
  have hStops : ¬(Rule.level .or).continuedBy t.kind := by
    intro hContinued
    obtain ⟨m, -, hm⟩ := hContinued
    exact ht (.inr ⟨m, hm⟩)
  have hOr : (level .or (ts ++ t :: after)).Reads e (t :: after) :=
    h.readsBefore ⟨t, after, rfl, hStops⟩
  exact reads_assignment.mpr ⟨e, t, after, hOr, .inr ⟨hEqual, rfl, rfl⟩⟩

theorem not_continuedBy_close {kind : TokenKind} (h : kind = .semicolon ∨ kind = .rightParen) :
    ¬Rule.expression.continuedBy kind := by
  intro hContinued
  rcases hContinued with hEqual | ⟨l, hl⟩
  · rw [hEqual] at h
    simp at h
  · have hKinds : kind ∈ [TokenKind.semicolon, .rightParen, .equal] := by
      rcases h with rfl | rfl <;> simp
    exact not_mem_operators hKinds l hl

/-- The tokens of a tree are read as that tree. -/
theorem completes_of_exprTree {n : Nonterminal} {ts : List Token} {e : Expr}
    (h : ExprTree n ts e) : Completes n ts e := by
  induction h with
  | expression h ih =>
    intro rest hNext
    exact reads_expression.mpr (ih hNext)
  | assign hName hEquals h ih => exact readsBefore_assign hName hEquals ih
  | noAssign h ih => exact readsBefore_noAssign ih
  | operand hLevel h ih => exact readsInChain_of_below (readsBefore_below hLevel ih)
  | operator hLevel hOp hLeft hRight ihLeft ihRight =>
    have hOperand := readsBefore_below hLevel ihRight
    obtain ⟨rfl, rfl⟩ := binaryLevel_eq hLevel
    exact Level.ReadsInChain.operator hOp ihLeft hOperand
  | unary hOp h ih =>
    intro rest hNext
    exact reads_unary.mpr ⟨_, _, rfl, .inl ⟨hOp, _, ih hNext, rfl⟩⟩
  | noUnary h ih => exact readsBefore_unary ih
  | value hKind =>
    refine readsBefore_literal ?_
    rcases hKind with hKind | hKind
    · rw [literalOf?, hKind]
    · rw [literalOf?, hKind]
  | trueValue hKind => exact readsBefore_literal (by rw [literalOf?, hKind])
  | falseValue hKind => exact readsBefore_literal (by rw [literalOf?, hKind])
  | nilValue hKind => exact readsBefore_literal (by rw [literalOf?, hKind])
  | name hKind => exact readsBefore_name hKind
  | @group left right ts e hLeft hRight h ih =>
    intro rest _
    have hInner : (expression (ts ++ right :: rest)).Reads e (right :: rest) :=
      ih ⟨right, rest, rfl, not_continuedBy_close (.inr hRight)⟩
    refine reads_primary.mpr ⟨left, ts ++ right :: rest, ?_, .inr (.inr ⟨hLeft, ?_⟩)⟩
    · rw [List.cons_append, List.append_assoc, List.singleton_append]
    · exact ⟨e, right, hInner, hRight, rfl⟩

/-- An expression is read in front of the token that closes what it stands in. -/
theorem reads_of_exprTree {ts rest : List Token} {close : Token} {e : Expr}
    (h : ExprTree .expression ts e)
    (hClose : close.kind = .semicolon ∨ close.kind = .rightParen) :
    (expression (ts ++ close :: rest)).Reads e (close :: rest) :=
  completes_of_exprTree h ⟨close, rest, rfl, not_continuedBy_close hClose⟩

theorem reads_of_conditionTree {noParen openParen : Complaint} {cs : List Token} {c : Expr}
    (h : ConditionTree cs c) (rest : List Token) :
    (condition noParen openParen (cs ++ rest)).Reads c rest := by
  obtain @⟨left, right, ts, e, hLeft, hRight, he⟩ := h
  refine reads_condition.mpr ⟨left, ts ++ right :: rest, right, ?_, hLeft, ?_, hRight⟩
  · rw [List.cons_append, List.append_assoc, List.singleton_append]
  · exact reads_of_exprTree he (.inr hRight)

-- ---------------------------------------------------------------------------
-- Statements without statements inside
-- ---------------------------------------------------------------------------

theorem reads_of_varDeclTree {ts : List Token} {s : Stmt} (h : VarDeclTree ts s) :
    ∃ var tail, ts = var :: tail ∧ var.kind = .varKw ∧
      ∀ rest, (varDeclaration (tail ++ rest)).Reads s rest := by
  cases h with
  | @bare var name semicolon hVar hName hEnd =>
    refine ⟨var, _, rfl, hVar, fun rest => ?_⟩
    exact reads_varDeclaration.mpr ⟨name, semicolon, rest, rfl, hName, .inr ⟨hEnd, rfl, rfl⟩⟩
  | @initialized var name equals semicolon us e hVar hName hEquals hEnd he =>
    refine ⟨var, _, rfl, hVar, fun rest => ?_⟩
    refine reads_varDeclaration.mpr ⟨name, equals, us ++ semicolon :: rest, ?_, hName, .inl ?_⟩
    · simp only [List.cons_append, List.append_assoc, List.nil_append]
    · exact ⟨hEquals, e, semicolon, reads_of_exprTree he (.inl hEnd), hEnd, rfl⟩

theorem reads_of_exprStmtTree {ts : List Token} {s : Stmt} (h : ExprStmtTree ts s)
    (rest : List Token) : (expressionStatement (ts ++ rest)).Reads s rest := by
  obtain @⟨semicolon, us, e, hEnd, he⟩ := h
  refine reads_expressionStatement.mpr ⟨e, semicolon, ?_, hEnd, rfl⟩
  rw [List.append_assoc, List.singleton_append]
  exact reads_of_exprTree he (.inl hEnd)

theorem reads_of_forInitTree {ts : List Token} {s? : Option Stmt} (h : ForInitTree ts s?)
    (rest : List Token) : (forInitializer (ts ++ rest)).Reads s? rest := by
  cases h with
  | absent hEnd => exact reads_forInitializer.mpr ⟨_, rest, rfl, .inl ⟨hEnd, rfl, rfl⟩⟩
  | varDecl h =>
    obtain ⟨var, tail, rfl, hVar, hReads⟩ := reads_of_varDeclTree h
    exact reads_forInitializer.mpr ⟨var, tail ++ rest, rfl, .inr (.inl ⟨hVar, _, hReads rest, rfl⟩)⟩
  | exprStmt h =>
    have hReads := reads_of_exprStmtTree h rest
    obtain ⟨hEnd, he⟩ := h
    obtain ⟨t, after, rfl, ht⟩ := exprTree_starts he
    refine reads_forInitializer.mpr ⟨t, _, rfl, .inr (.inr ⟨?_, ?_, _, hReads, rfl⟩)⟩
    · exact ht.ne (by decide)
    · exact ht.ne (by decide)

theorem reads_of_optionalTree {close : TokenKind}
    (hClose : close = .semicolon ∨ close = .rightParen) {complaint : Complaint} {ts : List Token}
    {e? : Option Expr} {closing : Token} (hKind : closing.kind = close) (h : OptionalTree ts e?)
    (rest : List Token) :
    (forClause close complaint (ts ++ closing :: rest)).Reads e? rest := by
  have hEof : close ≠ .eof := by rcases hClose with rfl | rfl <;> decide
  cases h with
  | absent => exact (reads_forClause hEof).mpr ⟨closing, rest, rfl, .inl ⟨hKind, rfl, rfl⟩⟩
  | present he =>
    have hReads : (expression (ts ++ closing :: rest)).Reads _ (closing :: rest) :=
      reads_of_exprTree he (hKind ▸ hClose)
    obtain ⟨t, after, rfl, ht⟩ := exprTree_starts he
    refine (reads_forClause hEof).mpr ⟨t, _, rfl, .inr ⟨?_, _, closing, hReads, hKind, rfl⟩⟩
    rcases hClose with rfl | rfl
    · exact ht.ne (by decide)
    · exact ht.ne (by decide)

-- ---------------------------------------------------------------------------
-- Statements
-- ---------------------------------------------------------------------------

/-- What completeness says of the trees of declarations and statements. -/
def FormCompletes : Form → List Token → Stmt → Prop
  | .declaration, ts, s => ∀ ⦃rest : List Token⦄, Next (· ≠ .elseKw) rest →
    ∃ t tail, ∃ ht : t.kind ≠ .eof, ts ++ rest = t :: tail ∧ t.kind ≠ .rightBrace ∧
      (declaration t tail ht).toStep.Reads (some s) rest
  | .statement dangling, ts, s => ∀ ⦃rest : List Token⦄,
    (dangling = true → Next (· ≠ .elseKw) rest) → (statement (ts ++ rest)).Reads s rest

/-- Declarations one after the other are not followed by an `else`. -/
theorem next_parts {parts : List (List Token × Stmt)}
    (hParts : ∀ part ∈ parts, StmtTree .declaration part.1 part.2) {close : Token}
    (hClose : close.kind ≠ .elseKw) (rest : List Token) :
    Next (· ≠ .elseKw) (parts.flatMap Prod.fst ++ close :: rest) := by
  cases parts with
  | nil => exact ⟨close, rest, rfl, hClose⟩
  | cons part parts =>
    obtain ⟨t, after, hEq, -, -, hElse, -⟩ := stmtTree_starts (hParts part List.mem_cons_self)
    rw [List.flatMap_cons, hEq]
    exact ⟨t, _, rfl, hElse⟩

theorem reads_of_block {parts : List (List Token × Stmt)} {right : Token}
    (hRight : right.kind = .rightBrace)
    (hParts : ∀ part ∈ parts, StmtTree .declaration part.1 part.2)
    (ih : ∀ part ∈ parts, FormCompletes .declaration part.1 part.2) (rest : List Token) :
    (block (parts.flatMap Prod.fst ++ right :: rest)).Reads (parts.map Prod.snd) rest := by
  induction parts with
  | nil => exact reads_block.mpr ⟨right, rest, rfl, .inl ⟨hRight, rfl, rfl⟩⟩
  | cons part parts ihParts =>
    obtain ⟨-, hTail⟩ := List.forall_mem_cons.mp hParts
    obtain ⟨hPart, ihTail⟩ := List.forall_mem_cons.mp ih
    have hElse : right.kind ≠ .elseKw := by simp [hRight]
    obtain ⟨t, after, ht, hEq, hBrace, hReads⟩ := hPart (next_parts hTail hElse rest)
    rw [List.flatMap_cons, List.append_assoc, hEq]
    exact reads_block.mpr ⟨t, after, rfl, .inr ⟨hBrace, ht, some part.2, _, _, hReads,
      ihParts hTail ihTail, rfl⟩⟩

section

variable {keyword : Token} {cs ts : List Token} {c : Expr} {s : Stmt} {dangling : Bool}

theorem completes_varDecl (h : VarDeclTree ts s) : FormCompletes .declaration ts s := by
  intro rest _
  obtain ⟨var, tail, rfl, hVar, hReads⟩ := reads_of_varDeclTree h
  have hEof : var.kind ≠ .eof := by simp [hVar]
  have hBrace : var.kind ≠ .rightBrace := by simp [hVar]
  refine ⟨var, tail ++ rest, hEof, rfl, hBrace, ?_⟩
  exact (reads_declaration hEof).mpr ⟨s, rfl, .inl ⟨hVar, hReads rest⟩⟩

/-- As a declaration a statement never stands in front of an `else`. -/
theorem completes_statement (h : StmtTree (.statement dangling) ts s)
    (ih : FormCompletes (.statement dangling) ts s) : FormCompletes .declaration ts s := by
  intro rest hNext
  have hReads : (statement (ts ++ rest)).Reads s rest := ih fun _ => hNext
  obtain ⟨t, after, rfl, hEof, hBrace, -, hVar⟩ := stmtTree_starts h
  have hNoVar : t.kind ≠ .varKw := hVar (by simp)
  refine ⟨t, after ++ rest, hEof, rfl, hBrace, ?_⟩
  exact (reads_declaration hEof).mpr ⟨s, rfl, .inr ⟨hNoVar, hReads⟩⟩

theorem completes_expression (h : ExprStmtTree ts s) : FormCompletes (.statement false) ts s := by
  intro rest _
  have hReads := reads_of_exprStmtTree h rest
  obtain ⟨hEnd, he⟩ := h
  obtain ⟨t, after, rfl, ht⟩ := exprTree_starts he
  have hNone : ¬leadsStatement t.kind := by
    intro hLeads
    simp only [leadsStatement, List.mem_cons, List.not_mem_nil, or_false] at hLeads
    rcases hLeads with h | h | h | h | h <;> exact ht.ne (by decide) h
  exact reads_statement.mpr ⟨t, _, rfl, .inr (.inr (.inr (.inr (.inr ⟨hNone, hReads⟩))))⟩

theorem completes_ifThen (hIf : keyword.kind = .ifKw) (hc : ConditionTree cs c)
    (ih : FormCompletes (.statement dangling) ts s) :
    FormCompletes (.statement true) (keyword :: (cs ++ ts)) (.ifElse c s none) := by
  intro rest hNext
  obtain ⟨t, after, rfl, ht⟩ := hNext rfl
  have hThen : (statement (ts ++ t :: after)).Reads s (t :: after) :=
    ih fun _ => ⟨t, after, rfl, ht⟩
  rw [List.cons_append, List.append_assoc]
  refine reads_statement.mpr ⟨keyword, _, rfl, .inr (.inl ⟨hIf, ?_⟩)⟩
  exact reads_ifStatement.mpr ⟨c, _, s, t, after, reads_of_conditionTree hc _, hThen,
    .inr ⟨ht, rfl, rfl⟩⟩

/-- The first branch is not dangling, so it leaves the `else` alone. -/
theorem completes_ifElse {elseKeyword : Token} {us : List Token} {s' : Stmt}
    (hIf : keyword.kind = .ifKw) (hElse : elseKeyword.kind = .elseKw) (hc : ConditionTree cs c)
    (ihThen : FormCompletes (.statement false) ts s)
    (ihElse : FormCompletes (.statement dangling) us s') :
    FormCompletes (.statement dangling) (keyword :: (cs ++ (ts ++ elseKeyword :: us)))
      (.ifElse c s (some s')) := by
  intro rest hNext
  have hThen : (statement (ts ++ elseKeyword :: (us ++ rest))).Reads s
      (elseKeyword :: (us ++ rest)) := ihThen fun hFalse => by cases hFalse
  have hBranch : (statement (us ++ rest)).Reads s' rest := ihElse hNext
  rw [List.cons_append, List.append_assoc, List.append_assoc, List.cons_append]
  refine reads_statement.mpr ⟨keyword, _, rfl, .inr (.inl ⟨hIf, ?_⟩)⟩
  exact reads_ifStatement.mpr ⟨c, _, s, elseKeyword, _, reads_of_conditionTree hc _, hThen,
    .inl ⟨hElse, s', hBranch, rfl⟩⟩

theorem completes_whileLoop (hWhile : keyword.kind = .whileKw) (hc : ConditionTree cs c)
    (ih : FormCompletes (.statement dangling) ts s) :
    FormCompletes (.statement dangling) (keyword :: (cs ++ ts)) (.whileLoop c s) := by
  intro rest hNext
  rw [List.cons_append, List.append_assoc]
  refine reads_statement.mpr ⟨keyword, _, rfl, .inr (.inr (.inr (.inl ⟨hWhile, ?_⟩)))⟩
  exact reads_whileStatement.mpr ⟨c, _, s, reads_of_conditionTree hc _, ih hNext, rfl⟩

theorem completes_forLoop {left semicolon right : Token} {is us : List Token}
    {initializer : Option Stmt} {condition increment : Option Expr}
    (hFor : keyword.kind = .forKw) (hLeft : left.kind = .leftParen)
    (hSemicolon : semicolon.kind = .semicolon) (hRight : right.kind = .rightParen)
    (hInit : ForInitTree is initializer) (hCondition : OptionalTree cs condition)
    (hIncrement : OptionalTree us increment) (ih : FormCompletes (.statement dangling) ts s) :
    FormCompletes (.statement dangling)
      (keyword :: left :: (is ++ (cs ++ semicolon :: (us ++ right :: ts))))
      (expandFor initializer condition increment s) := by
  intro rest hNext
  have hTokens : keyword :: left :: (is ++ (cs ++ semicolon :: (us ++ right :: ts))) ++ rest =
      keyword :: left :: (is ++ (cs ++ semicolon :: (us ++ right :: (ts ++ rest)))) := by
    simp only [List.cons_append, List.append_assoc]
  have hInitializer :=
    reads_of_forInitTree hInit (cs ++ semicolon :: (us ++ right :: (ts ++ rest)))
  rw [hTokens]
  refine reads_statement.mpr ⟨keyword, _, rfl, .inl ⟨hFor, ?_⟩⟩
  refine reads_forStatement.mpr ⟨⟨initializer, condition, increment⟩, ts ++ rest, s, ?_,
    ih hNext, loop_eq_expandFor _ _⟩
  refine reads_forHead.mpr ⟨left, _, _, us ++ right :: (ts ++ rest), rfl, hLeft, hInitializer,
    ?_, ?_⟩
  · exact reads_of_optionalTree (.inl rfl) hSemicolon hCondition _
  · exact reads_of_optionalTree (.inr rfl) hRight hIncrement _

end

/-- The tokens of a declaration or a statement are read as its tree. -/
theorem reads_of_stmtTree {form : Form} {ts : List Token} {s : Stmt} (h : StmtTree form ts s) :
    FormCompletes form ts s := by
  induction h with
  | varDecl h => exact completes_varDecl h
  | statement h ih => exact completes_statement h ih
  | expression h => exact completes_expression h
  | @print print semicolon us e hPrint hEnd he =>
    intro rest _
    rw [List.cons_append, List.append_assoc, List.singleton_append]
    refine reads_statement.mpr ⟨print, _, rfl, .inr (.inr (.inl ⟨hPrint, ?_⟩))⟩
    exact reads_printStatement.mpr ⟨e, semicolon, reads_of_exprTree he (.inl hEnd), hEnd, rfl⟩
  | @block left right parts hLeft hRight hParts ih =>
    intro rest _
    rw [List.cons_append, List.append_assoc, List.singleton_append]
    refine reads_statement.mpr ⟨left, _, rfl, .inr (.inr (.inr (.inr (.inl ⟨hLeft, ?_⟩))))⟩
    exact ⟨_, reads_of_block hRight hParts ih rest, rfl⟩
  | ifThen hIf hc h ih => exact completes_ifThen hIf hc ih
  | ifElse hIf hElse hc hThen hBranch ihThen ihElse =>
    exact completes_ifElse hIf hElse hc ihThen ihElse
  | whileLoop hWhile hc h ih => exact completes_whileLoop hWhile hc ih
  | forLoop hFor hLeft hSemicolon hRight hInit hCondition hIncrement h ih =>
    exact completes_forLoop hFor hLeft hSemicolon hRight hInit hCondition hIncrement ih

-- ---------------------------------------------------------------------------
-- Programs
-- ---------------------------------------------------------------------------

/-- The tokens of a program in front of the end of its file are read as its tree. -/
theorem reads_of_programTree {tokens rest : List Token} {statements : List Stmt} {eof : Token}
    (hEof : eof.kind = .eof) (h : ProgramTree tokens statements) :
    (program (tokens ++ eof :: rest)).Reads statements (eof :: rest) := by
  obtain ⟨parts, hParts, rfl, rfl⟩ := h
  induction parts with
  | nil => exact reads_program.mpr ⟨eof, rest, rfl, .inl ⟨hEof, rfl, rfl⟩⟩
  | cons part parts ih =>
    obtain ⟨hPart, hTail⟩ := List.forall_mem_cons.mp hParts
    have hElse : eof.kind ≠ .elseKw := by simp [hEof]
    obtain ⟨t, after, ht, hEq, -, hReads⟩ :=
      reads_of_stmtTree hPart (next_parts hTail hElse rest)
    rw [List.flatMap_cons, List.append_assoc, hEq]
    exact reads_program.mpr ⟨t, after, rfl, .inr ⟨ht, some part.2, _, _, hReads, ih hTail, rfl⟩⟩

end Scriptlet.Parse
