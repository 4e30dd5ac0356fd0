import Scriptlet.Proofs.Grammar.Sentences
import Scriptlet.Proofs.Parse.Descent
import Scriptlet.Proofs.Parse.ReadingStatements

/-!
# Scriptlet — what is read has a tree

Whatever a rule reads without a complaint is the tree of the tokens that it
used. For expressions the proof follows the descent; a chain of operators keeps
the tree of everything to the left of the next operator. For statements it also
keeps where an `else` may not stand: behind a dangling statement the parser has
seen that the next token is no `else`.

## Results

* `Rule.symbol`             — the nonterminal that a rule reads.
* `exprTree_of_reads`       — expressions.
* `statement_block_sound`   — statements and blocks.
* `programTree_of_reads`    — programs.
-/

namespace Scriptlet.Parse

open Grammar Step

-- ---------------------------------------------------------------------------
-- Expressions
-- ---------------------------------------------------------------------------

/-- The nonterminal that a rule reads. -/
def Rule.symbol : Rule → Nonterminal
  | expression => .expression
  | assignment => .assignment
  | level l => .level l
  | operand l => l.tighter.elim .unary .level
  | unary => .unary
  | primary => .primary

theorem symbol_below (l : Level) : l.below.symbol = (Rule.operand l).symbol := by
  cases l <;> rfl

theorem binaryLevel_operators (l : Level) :
    BinaryLevel l l.operators (Rule.operand l).symbol l.node := by
  cases l <;> constructor

/-- The table of the grammar is that of the parser. -/
theorem binaryLevel_eq {l : Level} {operators : List TokenKind} {below : Nonterminal}
    {node : Expr → Token → Expr → Expr} (h : BinaryLevel l operators below node) :
    operators = l.operators ∧ node = l.node := by
  cases h <;> exact ⟨rfl, rfl⟩

/-- What a rule reads from these tokens is the tree of the tokens that it used. -/
def Rule.SoundOn (rule : Rule) (tokens : List Token) : Prop :=
  ∀ {e : Expr} {rest : List Token}, (rule.run tokens).Reads e rest →
    ∃ used, used ++ rest = tokens ∧ ExprTree rule.symbol used e

/-- A variable is the tree of its name alone. -/
theorem exprTree_variable {n : Nonterminal} {ts : List Token} {e : Expr} {name : Token}
    (h : ExprTree n ts e) (he : e = .variable name) : ts = [name] ∧ name.kind = .identifier := by
  induction h with
  | expression h ih => exact ih he
  | assign hName hEquals h ih => cases he
  | noAssign h ih => exact ih he
  | operand hLevel h ih => exact ih he
  | operator hLevel hOp hLeft hRight ihLeft ihRight =>
    cases hLevel <;> cases he
  | unary hOp h ih => cases he
  | noUnary h ih => exact ih he
  | value hKind => cases he
  | trueValue hKind => cases he
  | falseValue hKind => cases he
  | nilValue hKind => cases he
  | name hKind =>
    cases he
    exact ⟨rfl, hKind⟩
  | group hLeft hRight h ih => cases he

theorem assignTo?_eq_some {target value e : Expr} (h : assignTo? target value = some e) :
    ∃ name, target = .variable name ∧ e = .assign name value := by
  unfold assignTo? at h
  split at h
  · exact ⟨_, rfl, (Option.some.inj h).symm⟩
  · cases h

/-- A token that is an expression by itself. -/
theorem exprTree_of_literalOf? {t : Token} {value : Value} (h : literalOf? t = some value) :
    ExprTree .primary [t] (.literal value) := by
  rw [literalOf?] at h
  split at h
  · next hKind =>
    obtain rfl := Option.some.inj h
    exact .trueValue hKind
  · next hKind =>
    obtain rfl := Option.some.inj h
    exact .falseValue hKind
  · next hKind =>
    obtain rfl := Option.some.inj h
    exact .nilValue hKind
  · next hKind =>
    obtain rfl := Option.some.inj h
    exact .value (.inl hKind)
  · next hKind =>
    obtain rfl := Option.some.inj h
    exact .value (.inr hKind)
  · cases h

/-- A chain carries the tree of all that stands to the left of the next operator. -/
theorem exprTree_of_reads_chain {l : Level} {bound : Nat}
    (hOperand : ∀ after, after.length < bound → (Rule.operand l).SoundOn after) :
    ∀ {n : Nat} {tokens middle rest used : List Token} {left e : Expr}
      {h : Shorter middle tokens}, middle.length = n → middle.length < bound →
      ExprTree (.level l) used left → (chain l left middle h).Reads e rest →
      ∃ more, more ++ rest = middle ∧ ExprTree (.level l) (used ++ more) e := by
  intro n
  induction n using Nat.strongRecOn with
  | ind n ih =>
    intro tokens middle rest used left e h hn hBound hLeft hChain
    obtain ⟨t, after, rfl, hNext⟩ := reads_chain.mp hChain
    rw [List.length_cons] at hn hBound
    rcases hNext with ⟨hOp, right, middle, hr, hRight, hMore⟩ | ⟨-, rfl, rfl⟩
    · have hAfter : after.length < bound := by omega
      obtain ⟨operands, rfl, hTree⟩ := hOperand after hAfter hRight
      have hNode : ExprTree (.level l) (used ++ t :: operands) (l.node left t right) :=
        .operator (binaryLevel_operators l) hOp hLeft hTree
      have hLess := hr.2
      have hMiddle : middle.length < n := by omega
      obtain ⟨more, rfl, hWhole⟩ := ih middle.length hMiddle rfl (by omega) hNode hMore
      refine ⟨t :: operands ++ more, ?_, ?_⟩
      · rw [List.append_assoc, List.cons_append]
      · rw [← List.append_assoc]
        exact hWhole
    · refine ⟨[], rfl, ?_⟩
      rw [List.append_nil]
      exact hLeft

/-- What a rule reads is the tree of the tokens that it used. -/
theorem exprTree_of_reads : ∀ (rule : Rule) (tokens : List Token), rule.SoundOn tokens := by
  apply Rule.induct
  case expression =>
    intro tokens hAssignment e rest h
    obtain ⟨used, hUsed, hTree⟩ := hAssignment (reads_expression.mp h)
    exact ⟨used, hUsed, .expression hTree⟩
  case assignment =>
    intro tokens hOr hShorter e rest h
    obtain ⟨target, t, after, hTarget, hNext⟩ := reads_assignment.mp h
    obtain ⟨used, hUsed, hTree⟩ := hOr hTarget
    rcases hNext with ⟨hEqual, value, hValue, hAssign⟩ | ⟨-, rfl, rfl⟩
    · -- the target was read as an expression; only a bare name passes the check
      obtain ⟨name, rfl, rfl⟩ := assignTo?_eq_some hAssign
      obtain ⟨rfl, hName⟩ := exprTree_variable hTree rfl
      have hLess : after.length < tokens.length := hTarget.shorter.length_tail_lt
      obtain ⟨values, rfl, hValueTree⟩ := hShorter after hLess hValue
      exact ⟨name :: t :: values, hUsed, .assign hName hEqual hValueTree⟩
    · exact ⟨used, hUsed, .noAssign hTree⟩
  case level =>
    intro l tokens hOperand hShorter e rest h
    obtain ⟨left, middle, hr, hLeft, hChain⟩ := reads_level.mp h
    obtain ⟨used, rfl, hTree⟩ := hOperand hLeft
    obtain ⟨more, rfl, hWhole⟩ := exprTree_of_reads_chain hShorter rfl hr.2
      (.operand (binaryLevel_operators l) hTree) hChain
    exact ⟨used ++ more, List.append_assoc used more rest, hWhole⟩
  case operand =>
    intro l tokens hBelow e rest h
    obtain ⟨used, hUsed, hTree⟩ := hBelow (reads_operand.mp h)
    rw [symbol_below] at hTree
    exact ⟨used, hUsed, hTree⟩
  case unary =>
    intro tokens hPrimary hShorter e rest h
    obtain ⟨t, after, rfl, hNext⟩ := reads_unary.mp h
    rcases hNext with ⟨hOp, operand, hOperand, rfl⟩ | ⟨-, hBare⟩
    · obtain ⟨used, rfl, hTree⟩ := hShorter after (Nat.lt_succ_self _) hOperand
      exact ⟨t :: used, rfl, .unary hOp hTree⟩
    · obtain ⟨used, hUsed, hTree⟩ := hPrimary hBare
      exact ⟨used, hUsed, .noUnary hTree⟩
  case primary =>
    intro tokens hShorter e rest h
    obtain ⟨t, after, rfl, hNext⟩ := reads_primary.mp h
    rcases hNext with ⟨value, hLiteral, rfl, rfl⟩ | ⟨hName, rfl, rfl⟩ |
      ⟨hParen, inner, close, hInner, hClose, rfl⟩
    · exact ⟨[t], rfl, exprTree_of_literalOf? hLiteral⟩
    · exact ⟨[t], rfl, .name hName⟩
    · obtain ⟨used, rfl, hTree⟩ := hShorter after (Nat.lt_succ_self _) hInner
      refine ⟨t :: (used ++ [close]), ?_, .group hParen hClose hTree⟩
      rw [List.cons_append, List.append_assoc, List.singleton_append]

theorem exprTree_of_reads_expression {tokens rest : List Token} {e : Expr}
    (h : (expression tokens).Reads e rest) :
    ∃ used, used ++ rest = tokens ∧ ExprTree .expression used e :=
  exprTree_of_reads .expression tokens h

/-- A condition behind the keyword of its statement. -/
theorem conditionTree_of_reads {noParen openParen : Complaint} {tokens rest : List Token}
    {e : Expr} (h : (condition noParen openParen tokens).Reads e rest) :
    ∃ used, used ++ rest = tokens ∧ ConditionTree used e := by
  obtain ⟨paren, after, close, rfl, hParen, he, hClose⟩ := reads_condition.mp h
  obtain ⟨used, rfl, hTree⟩ := exprTree_of_reads_expression he
  refine ⟨paren :: (used ++ [close]), ?_, .mk hParen hClose hTree⟩
  rw [List.cons_append, List.append_assoc, List.singleton_append]

-- ---------------------------------------------------------------------------
-- Statements without statements inside
-- ---------------------------------------------------------------------------

theorem varDeclTree_of_reads {tokens rest : List Token} {s : Stmt} {var : Token}
    (hVar : var.kind = .varKw) (h : (varDeclaration tokens).Reads s rest) :
    ∃ used, used ++ rest = var :: tokens ∧ VarDeclTree used s := by
  obtain ⟨name, t, after, rfl, hName, hNext⟩ := reads_varDeclaration.mp h
  rcases hNext with ⟨hEqual, e, close, he, hClose, rfl⟩ | ⟨hSemicolon, rfl, rfl⟩
  · obtain ⟨used, rfl, hTree⟩ := exprTree_of_reads_expression he
    refine ⟨var :: name :: t :: (used ++ [close]), ?_, .initialized hVar hName hEqual hClose hTree⟩
    simp only [List.cons_append, List.append_assoc, List.nil_append]
  · exact ⟨[var, name, t], rfl, .bare hVar hName hSemicolon⟩

theorem exprStmtTree_of_reads {tokens rest : List Token} {s : Stmt}
    (h : (expressionStatement tokens).Reads s rest) :
    ∃ used, used ++ rest = tokens ∧ ExprStmtTree used s := by
  obtain ⟨e, close, he, hClose, rfl⟩ := reads_expressionStatement.mp h
  obtain ⟨used, rfl, hTree⟩ := exprTree_of_reads_expression he
  refine ⟨used ++ [close], ?_, .mk hClose hTree⟩
  rw [List.append_assoc, List.singleton_append]

theorem forInitTree_of_reads {tokens rest : List Token} {s? : Option Stmt}
    (h : (forInitializer tokens).Reads s? rest) :
    ∃ used, used ++ rest = tokens ∧ ForInitTree used s? := by
  obtain ⟨t, after, rfl, hNext⟩ := reads_forInitializer.mp h
  rcases hNext with ⟨hSemicolon, rfl, rfl⟩ | ⟨hVar, s, hs, rfl⟩ | ⟨-, -, s, hs, rfl⟩
  · exact ⟨[t], rfl, .absent hSemicolon⟩
  · obtain ⟨used, hUsed, hTree⟩ := varDeclTree_of_reads hVar hs
    exact ⟨used, hUsed, .varDecl hTree⟩
  · obtain ⟨used, hUsed, hTree⟩ := exprStmtTree_of_reads hs
    exact ⟨used, hUsed, .exprStmt hTree⟩

theorem optionalTree_of_reads {close : TokenKind} (hClose : close ≠ .eof) {complaint : Complaint}
    {tokens rest : List Token} {e? : Option Expr}
    (h : (forClause close complaint tokens).Reads e? rest) :
    ∃ used closing, used ++ closing :: rest = tokens ∧ closing.kind = close ∧
      OptionalTree used e? := by
  obtain ⟨t, after, rfl, hNext⟩ := (reads_forClause hClose).mp h
  rcases hNext with ⟨hKind, rfl, rfl⟩ | ⟨-, e, closing, he, hKind, rfl⟩
  · exact ⟨[], t, rfl, hKind, .absent⟩
  · obtain ⟨used, hUsed, hTree⟩ := exprTree_of_reads_expression he
    exact ⟨used, closing, hUsed, hKind, .present hTree⟩

theorem loop_eq_expandFor (head : ForHead) (body : Stmt) :
    head.loop body = expandFor head.initializer head.condition head.increment body := by
  obtain ⟨initializer, condition, increment⟩ := head
  cases initializer <;> cases increment <;> rfl

-- ---------------------------------------------------------------------------
-- Statements
-- ---------------------------------------------------------------------------

/-- Whether the next token is one of a kind that satisfies a condition. -/
def Next (p : TokenKind → Prop) (tokens : List Token) : Prop :=
  ∃ t after, tokens = t :: after ∧ p t.kind

/-- The tokens in front of `rest` are a statement, and no `else` follows it if it is dangling. -/
def StatementSpan (tokens : List Token) (s : Stmt) (rest : List Token) : Prop :=
  ∃ used dangling, used ++ rest = tokens ∧ StmtTree (.statement dangling) used s ∧
    (dangling = true → Next (· ≠ .elseKw) rest)

/-- A statement that was read spans the tokens that were read. -/
def StatementSound (tokens : List Token) : Prop :=
  ∀ {s : Stmt} {rest : List Token}, (statement tokens).Reads s rest → StatementSpan tokens s rest

/-- The declarations of a block that was read have trees, up to the closing brace. -/
def BlockSound (tokens : List Token) : Prop :=
  ∀ {body : List Stmt} {rest : List Token}, (block tokens).Reads body rest →
    ∃ (parts : List (List Token × Stmt)) (right : Token),
      (∀ part ∈ parts, StmtTree .declaration part.1 part.2) ∧ right.kind = .rightBrace ∧
        parts.flatMap Prod.fst ++ right :: rest = tokens ∧ parts.map Prod.snd = body

theorem ifStatement_sound {tokens : List Token} {keyword : Token} (hIf : keyword.kind = .ifKw)
    (ih : ∀ after, after.length < tokens.length → StatementSound after) {s : Stmt}
    {rest : List Token} (h : (ifStatement tokens).Reads s rest) :
    StatementSpan (keyword :: tokens) s rest := by
  obtain ⟨c, body, thenBranch, t, after, hc, hThen, hNext⟩ := reads_ifStatement.mp h
  have hBody : body.length < tokens.length := hc.shorter.2
  have hAfter : after.length < tokens.length := Nat.lt_trans hThen.shorter.length_tail_lt hBody
  obtain ⟨cs, rfl, hCondition⟩ := conditionTree_of_reads hc
  obtain ⟨ts, dangling, rfl, hTree, hDangling⟩ := ih body hBody hThen
  rcases hNext with ⟨hElse, branch, hBranch, rfl⟩ | ⟨hElse, rfl, rfl⟩
  · -- a dangling first branch would have taken this `else` itself
    have hClosed : dangling = false := by
      cases dangling with
      | false => rfl
      | true =>
        obtain ⟨t', after', hEq, hNot⟩ := hDangling rfl
        cases hEq
        exact absurd hElse hNot
    subst hClosed
    obtain ⟨us, dangling', rfl, hTree', hDangling'⟩ := ih after hAfter hBranch
    refine ⟨_, dangling', ?_, .ifElse hIf hElse hCondition hTree hTree', hDangling'⟩
    simp only [List.cons_append, List.append_assoc]
  · refine ⟨_, true, ?_, .ifThen hIf hCondition hTree, fun _ => ⟨t, after, rfl, hElse⟩⟩
    rw [List.cons_append, List.append_assoc]

theorem whileStatement_sound {tokens : List Token} {keyword : Token}
    (hWhile : keyword.kind = .whileKw)
    (ih : ∀ after, after.length < tokens.length → StatementSound after) {s : Stmt}
    {rest : List Token} (h : (whileStatement tokens).Reads s rest) :
    StatementSpan (keyword :: tokens) s rest := by
  obtain ⟨c, after, body, hc, hBody, rfl⟩ := reads_whileStatement.mp h
  have hAfter : after.length < tokens.length := hc.shorter.2
  obtain ⟨cs, rfl, hCondition⟩ := conditionTree_of_reads hc
  obtain ⟨ts, dangling, rfl, hTree, hDangling⟩ := ih after hAfter hBody
  refine ⟨_, dangling, ?_, .whileLoop hWhile hCondition hTree, hDangling⟩
  rw [List.cons_append, List.append_assoc]

theorem forStatement_sound {tokens : List Token} {keyword : Token} (hFor : keyword.kind = .forKw)
    (ih : ∀ after, after.length < tokens.length → StatementSound after) {s : Stmt}
    {rest : List Token} (h : (forStatement tokens).Reads s rest) :
    StatementSpan (keyword :: tokens) s rest := by
  obtain ⟨head, after, body, hHead, hBody, rfl⟩ := reads_forStatement.mp h
  have hAfter : after.length < tokens.length := hHead.shorter.2
  obtain ⟨left, clauses, conditions, increments, rfl, hLeft, hInit, hCond, hIncr⟩ :=
    reads_forHead.mp hHead
  obtain ⟨is, rfl, hInitTree⟩ := forInitTree_of_reads hInit
  obtain ⟨cs, semicolon, rfl, hSemicolon, hCondTree⟩ := optionalTree_of_reads (by decide) hCond
  obtain ⟨us, right, rfl, hRight, hIncrTree⟩ := optionalTree_of_reads (by decide) hIncr
  obtain ⟨ts, dangling, rfl, hTree, hDangling⟩ := ih after hAfter hBody
  rw [loop_eq_expandFor]
  refine ⟨_, dangling, ?_,
    .forLoop hFor hLeft hSemicolon hRight hInitTree hCondTree hIncrTree hTree, hDangling⟩
  simp only [List.cons_append, List.append_assoc]

/-- A declaration that was read has a tree, if statements do that are read in its place. -/
theorem declaration_sound {t : Token} {tail rest : List Token} (ht : t.kind ≠ .eof)
    {s? : Option Stmt} (hStatement : StatementSound (t :: tail))
    (h : (declaration t tail ht).toStep.Reads s? rest) :
    ∃ used s, used ++ rest = t :: tail ∧ StmtTree .declaration used s ∧ s? = some s := by
  obtain ⟨s, rfl, hNext⟩ := (reads_declaration ht).mp h
  rcases hNext with ⟨hVar, hs⟩ | ⟨-, hs⟩
  · obtain ⟨used, hUsed, hTree⟩ := varDeclTree_of_reads hVar hs
    exact ⟨used, s, hUsed, .varDecl hTree, rfl⟩
  · obtain ⟨used, dangling, hUsed, hTree, -⟩ := hStatement hs
    exact ⟨used, s, hUsed, .statement hTree, rfl⟩

/-- Statements and blocks that were read have trees. -/
theorem statement_block_sound : ∀ tokens, StatementSound tokens ∧ BlockSound tokens := by
  apply statement_induct
  case statement =>
    intro tokens ih ihBlock s rest h
    obtain ⟨t, after, rfl, hNext⟩ := reads_statement.mp h
    have hLess : ∀ {more : List Token}, more.length < after.length →
        more.length < (t :: after).length := fun hMore => Nat.lt_succ_of_lt hMore
    rcases hNext with ⟨hFor, hs⟩ | ⟨hIf, hs⟩ | ⟨hPrint, hs⟩ | ⟨hWhile, hs⟩ | ⟨hBrace, hs⟩ | ⟨-, hs⟩
    · exact forStatement_sound hFor (fun more hMore => ih more (hLess hMore)) hs
    · exact ifStatement_sound hIf (fun more hMore => ih more (hLess hMore)) hs
    · obtain ⟨e, close, he, hClose, rfl⟩ := reads_printStatement.mp hs
      obtain ⟨used, rfl, hTree⟩ := exprTree_of_reads_expression he
      refine ⟨_, false, ?_, .print hPrint hClose hTree, fun hFalse => by cases hFalse⟩
      rw [List.cons_append, List.append_assoc, List.singleton_append]
    · exact whileStatement_sound hWhile (fun more hMore => ih more (hLess hMore)) hs
    · obtain ⟨body, hBody, rfl⟩ := hs
      obtain ⟨parts, right, hParts, hRight, rfl, rfl⟩ := ihBlock after (Nat.lt_succ_self _) hBody
      refine ⟨_, false, ?_, .block parts hBrace hRight hParts, fun hFalse => by cases hFalse⟩
      rw [List.cons_append, List.append_assoc, List.singleton_append]
    · obtain ⟨used, hUsed, hTree⟩ := exprStmtTree_of_reads hs
      exact ⟨used, false, hUsed, .expression hTree, fun hFalse => by cases hFalse⟩
  case block =>
    intro tokens hStatement ih body rest h
    obtain ⟨t, after, rfl, hNext⟩ := reads_block.mp h
    rcases hNext with ⟨hBrace, rfl, rfl⟩ | ⟨-, ht, s?, middle, more, hs, hMore, rfl⟩
    · exact ⟨[], t, by simp, hBrace, rfl, rfl⟩
    · obtain ⟨used, s, hUsed, hTree, rfl⟩ := declaration_sound ht hStatement hs
      have hLess : middle.length < (t :: after).length := hs.shorter.2
      obtain ⟨parts, right, hParts, hRight, rfl, rfl⟩ := ih middle hLess hMore
      refine ⟨(used, s) :: parts, right, ?_, hRight, ?_, rfl⟩
      · exact List.forall_mem_cons.mpr ⟨hTree, hParts⟩
      · rw [List.flatMap_cons, List.append_assoc]
        exact hUsed

-- ---------------------------------------------------------------------------
-- Programs
-- ---------------------------------------------------------------------------

/-- A program that was read to its end of file has a tree. -/
theorem programTree_of_reads : ∀ {tokens rest : List Token} {statements : List Stmt},
    (program tokens).Reads statements rest →
      ∃ used, used ++ rest = tokens ∧ ProgramTree used statements := by
  intro tokens
  induction hn : tokens.length using Nat.strongRecOn generalizing tokens with
  | ind n ih =>
    intro rest statements h
    obtain ⟨t, after, rfl, hNext⟩ := reads_program.mp h
    rcases hNext with ⟨hEof, rfl, rfl⟩ | ⟨ht, s?, middle, more, hs, hMore, rfl⟩
    · exact ⟨[], rfl, [], by simp, rfl, rfl⟩
    · obtain ⟨used, s, hUsed, hTree, rfl⟩ :=
        declaration_sound ht (statement_block_sound (t :: after)).1 hs
      have hLess := hs.shorter.2
      obtain ⟨_, rfl, parts, hParts, rfl, rfl⟩ := ih middle.length (by omega) rfl hMore
      refine ⟨used ++ parts.flatMap Prod.fst, ?_, (used, s) :: parts, ?_, rfl, rfl⟩
      · rw [List.append_assoc]
        exact hUsed
      · exact List.forall_mem_cons.mpr ⟨hTree, hParts⟩

end Scriptlet.Parse
