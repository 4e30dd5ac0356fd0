import Scriptlet.Proofs.Parse.Descent
import Scriptlet.Proofs.Tree.Proper

/-!
# Scriptlet — the parser builds proper trees

Whatever a rule is done with is proper, also where it complained: a target that
cannot be assigned to is kept as the expression it is, a missing left operand
leaves the right one, and a dropped declaration leaves nothing behind. Nothing
is assumed about the tokens.

## Results

* `Step.Yields`             — a step that is done has a value with a property.
* `yields_rule`             — expressions.
* `yields_statement_and_block` — statements and blocks.
* `allProper_program`       — programs.
-/

namespace Scriptlet.Parse

-- ---------------------------------------------------------------------------
-- Steps
-- ---------------------------------------------------------------------------

namespace Step

variable {α β : Type} {tokens shorter : List Token} {P : α → Prop} {Q : β → Prop}

/-- If a step is done, its value has the property. -/
def Yields (P : α → Prop) : Step α tokens → Prop
  | done value _ _ _ => P value
  | abandoned _ _ _ => True
  | ranOff _ => True

theorem yields_within {s : Step α shorter} (h : shorter <:+ tokens) (hs : s.Yields P) :
    (s.within h).Yields P := by
  cases s <;> exact hs

theorem yields_prepend {s : Step α tokens} (earlier : List Report) (hs : s.Yields P) :
    (s.prepend earlier).Yields P := by
  cases s <;> exact hs

theorem yields_map {s : Step α tokens} {f : α → β} (hs : s.Yields P) (hf : ∀ v, P v → Q (f v)) :
    (s.map f).Yields Q := by
  cases s with
  | done v rest reports hr => exact hf v hs
  | abandoned rest reports hr => trivial
  | ranOff reports => trivial

theorem yields_andThen {first : Step α tokens}
    {next : (value : α) → (rest : List Token) → Shorter rest tokens → Step β tokens}
    (hFirst : first.Yields P) (hNext : ∀ v rest h, P v → (next v rest h).Yields Q) :
    (first.andThen next).Yields Q := by
  cases first with
  | done v rest reports hr => exact yields_prepend reports (hNext v rest hr hFirst)
  | abandoned rest reports hr => trivial
  | ranOff reports => trivial

theorem yields_bind {first : Step α tokens}
    {next : (value : α) → (rest : List Token) → Shorter rest tokens → Step β rest}
    (hFirst : first.Yields P) (hNext : ∀ v rest h, P v → (next v rest h).Yields Q) :
    (first.bind next).Yields Q :=
  yields_andThen hFirst fun v rest h hv => yields_within h.1 (hNext v rest h hv)

end Step

open Step

theorem yields_abandon {α : Type} {P : α → Prop} (complaint : Complaint) (tokens : List Token) :
    (abandon complaint tokens : Step α tokens).Yields P := by
  cases tokens with
  | nil => trivial
  | cons t rest => trivial

theorem yields_expect (kind : TokenKind) (complaint : Complaint) (tokens : List Token) :
    (expect kind complaint tokens).Yields (·.kind = kind) := by
  cases tokens with
  | nil => trivial
  | cons t rest =>
    rw [expect]
    by_cases hKind : t.is kind
    · rw [if_pos hKind]
      show t.kind = kind
      unfold Token.is at hKind
      rw [Bool.and_eq_true, beq_iff_eq] at hKind
      exact hKind.2
    · rw [if_neg hKind]
      exact yields_abandon complaint (t :: rest)

/-- A step and a token behind it. -/
theorem yields_closed {α β : Type} {P : α → Prop} {Q : β → Prop} {tokens : List Token}
    {kind : TokenKind} {complaint : Complaint} {first : Step α tokens} {f : α → Token → β}
    (hFirst : first.Yields P) (hf : ∀ v t, P v → Q (f v t)) :
    (first.bind fun v rest _ => (expect kind complaint rest).map (f v)).Yields Q := by
  refine yields_bind hFirst ?_
  intro v rest h hv
  exact yields_map (yields_expect kind complaint rest) fun t _ => hf v t hv

-- ---------------------------------------------------------------------------
-- Expressions
-- ---------------------------------------------------------------------------

/-- The node of an operator of a level is one that the operator can be evaluated in. -/
theorem proper_node {l : Level} {left right : Expr} {t : Token} (hOp : t.kind ∈ l.operators)
    (hLeft : left.Proper) (hRight : right.Proper) : (l.node left t right).Proper := by
  cases l with
  | or =>
    have hKind : t.kind = .orKw := by simpa [Level.operators] using hOp
    exact ⟨.inr hKind, hLeft, hRight⟩
  | and =>
    have hKind : t.kind = .andKw := by simpa [Level.operators] using hOp
    exact ⟨.inl hKind, hLeft, hRight⟩
  | equality =>
    have hKnown : Level.equality.operators ⊆ binaryKinds := by decide
    exact ⟨hKnown hOp, hLeft, hRight⟩
  | comparison =>
    have hKnown : Level.comparison.operators ⊆ binaryKinds := by decide
    exact ⟨hKnown hOp, hLeft, hRight⟩
  | term =>
    have hKnown : Level.term.operators ⊆ binaryKinds := by decide
    exact ⟨hKnown hOp, hLeft, hRight⟩
  | factor =>
    have hKnown : Level.factor.operators ⊆ binaryKinds := by decide
    exact ⟨hKnown hOp, hLeft, hRight⟩

theorem proper_assignTo? {target value e : Expr} (hTarget : target.Proper) (hValue : value.Proper)
    (h : assignTo? target value = some e) : e.Proper := by
  unfold assignTo? at h
  split at h
  · cases h
    exact ⟨hTarget, hValue⟩
  · cases h

theorem yields_chain {tokens : List Token} (l : Level) (left : Expr) (rest : List Token)
    (h : Shorter rest tokens) (hLeft : left.Proper)
    (ih : ∀ after, after.length < rest.length → (operand l after).Yields Expr.Proper) :
    (chain l left rest h).Yields Expr.Proper := by
  induction hn : rest.length using Nat.strongRecOn generalizing tokens left rest with
  | ind n step =>
    subst hn
    cases rest with
    | nil =>
      rw [chain]
      trivial
    | cons t after =>
      rw [chain]
      split
      · next hOp =>
        refine yields_within _ (yields_andThen (ih after (by simp)) ?_)
        intro right rest hr hRight
        have hNode := proper_node (List.contains_iff_mem.mp hOp) hLeft hRight
        have hLess : rest.length < (t :: after).length := Nat.lt_succ_of_lt hr.2
        exact step rest.length hLess _ rest hr hNode
          (fun more hm => ih more (Nat.lt_trans hm hLess)) rfl
      · exact hLeft

section

variable {tokens : List Token}

/-- A target that cannot be assigned to is kept as it is. -/
theorem yields_assignment (ihLevel : (level .or tokens).Yields Expr.Proper)
    (ih : ∀ after, after.length < tokens.length → (assignment after).Yields Expr.Proper) :
    (assignment tokens).Yields Expr.Proper := by
  rw [assignment]
  refine yields_andThen ihLevel ?_
  intro target rest h hTarget
  cases rest with
  | nil => trivial
  | cons t after =>
    dsimp only
    by_cases hEqual : t.kind = .equal
    · rw [if_pos hEqual]
      have hAfter : (assignment after).Yields Expr.Proper := ih after h.length_tail_lt
      refine yields_within _ (yields_andThen hAfter ?_)
      intro value rest hr hValue
      split
      · next e hAssign => exact proper_assignTo? hTarget hValue hAssign
      · exact hTarget
    · rw [if_neg hEqual]
      exact hTarget

theorem yields_level {l : Level} (ihOperand : (operand l tokens).Yields Expr.Proper)
    (ih : ∀ after, after.length < tokens.length → (operand l after).Yields Expr.Proper) :
    (level l tokens).Yields Expr.Proper := by
  rw [level]
  refine yields_andThen ihOperand ?_
  intro left rest h hLeft
  refine yields_chain l left rest h hLeft ?_
  intro after hLess
  exact ih after (Nat.lt_trans hLess h.2)

theorem yields_unary (ihPrimary : (primary tokens).Yields Expr.Proper)
    (ih : ∀ after, after.length < tokens.length → (unary after).Yields Expr.Proper) :
    (unary tokens).Yields Expr.Proper := by
  cases tokens with
  | nil =>
    rw [unary]
    trivial
  | cons t rest =>
    rw [unary]
    by_cases hKind : t.kind = .bang ∨ t.kind = .minus
    · rw [if_pos hKind]
      refine yields_within _ (yields_map (ih rest (by simp)) ?_)
      intro operand hOperand
      exact ⟨hKind, hOperand⟩
    · rw [if_neg hKind]
      exact ihPrimary

/-- Behind a missing left operand only the right one is kept. -/
theorem yields_primary
    (ih : ∀ after, after.length < tokens.length → (expression after).Yields Expr.Proper) :
    (primary tokens).Yields Expr.Proper := by
  cases tokens with
  | nil =>
    rw [primary]
    trivial
  | cons t rest =>
    have hInner : (expression rest).Yields Expr.Proper := ih rest (by simp)
    rw [primary]
    split
    · trivial
    · split
      · next hName => exact hName
      · split
        · refine yields_within _ (yields_closed hInner ?_)
          intro inner close hProper
          exact hProper
        · split
          · exact yields_within _ (yields_prepend _ hInner)
          · exact yields_abandon _ _

end

/-- Every expression that a rule is done with is proper. -/
theorem yields_rule (rule : Rule) (tokens : List Token) :
    (rule.run tokens).Yields Expr.Proper := by
  induction rule, tokens using Rule.induct with
  | expression tokens ih =>
    show (expression tokens).Yields Expr.Proper
    rw [expression]
    exact ih
  | assignment tokens ihLevel ih => exact yields_assignment ihLevel ih
  | level l tokens ihOperand ih => exact yields_level ihOperand ih
  | operand l tokens ih =>
    show (operand l tokens).Yields Expr.Proper
    rw [operand_eq_run_below]
    exact ih
  | unary tokens ihPrimary ih => exact yields_unary ihPrimary ih
  | primary tokens ih => exact yields_primary ih

theorem yields_expression (tokens : List Token) : (expression tokens).Yields Expr.Proper :=
  yields_rule .expression tokens

-- ---------------------------------------------------------------------------
-- Statements without statements inside
-- ---------------------------------------------------------------------------

theorem yields_varDeclaration (tokens : List Token) :
    (varDeclaration tokens).Yields Stmt.Proper := by
  rw [varDeclaration]
  refine yields_andThen (yields_expect .identifier .noVariableName tokens) ?_
  intro name rest h hName
  cases rest with
  | nil => trivial
  | cons t after =>
    dsimp only
    by_cases hEqual : t.kind = .equal
    · rw [if_pos hEqual]
      refine yields_within _ (yields_closed (yields_expression after) ?_)
      intro e close he
      exact ⟨hName, he⟩
    · rw [if_neg hEqual]
      refine yields_within _ (yields_map (yields_expect .semicolon .openDeclaration _) ?_)
      intro close hClose
      exact hName

theorem yields_expressionStatement (tokens : List Token) :
    (expressionStatement tokens).Yields Stmt.Proper := by
  refine yields_closed (yields_expression tokens) ?_
  intro e close he
  exact he

theorem yields_printStatement (tokens : List Token) :
    (printStatement tokens).Yields Stmt.Proper := by
  refine yields_closed (yields_expression tokens) ?_
  intro e close he
  exact he

theorem yields_condition (noParen openParen : Complaint) (tokens : List Token) :
    (condition noParen openParen tokens).Yields Expr.Proper := by
  refine yields_bind (yields_expect .leftParen noParen tokens) ?_
  intro paren rest h hParen
  refine yields_closed (yields_expression rest) ?_
  intro e close he
  exact he

/-- Whatever is there is proper. -/
def AllOf {α : Type} (P : α → Prop) : Option α → Prop
  | none => True
  | some v => P v

theorem yields_forInitializer (tokens : List Token) :
    (forInitializer tokens).Yields (AllOf Stmt.Proper) := by
  cases tokens with
  | nil => trivial
  | cons t rest =>
    rw [forInitializer]
    split
    · trivial
    · split
      · exact yields_within _ (yields_map (yields_varDeclaration rest) fun s hs => hs)
      · exact yields_map (yields_expressionStatement (t :: rest)) fun s hs => hs

theorem yields_forClause (close : TokenKind) (complaint : Complaint) (tokens : List Token) :
    (forClause close complaint tokens).Yields (AllOf Expr.Proper) := by
  cases tokens with
  | nil => trivial
  | cons t rest =>
    rw [forClause]
    split
    · trivial
    · refine yields_closed (yields_expression (t :: rest)) ?_
      intro e closing he
      exact he

/-- All clauses of a `for` loop are proper. -/
structure ForHead.Proper (head : ForHead) : Prop where
  initializer : AllOf Stmt.Proper head.initializer
  condition : AllOf Expr.Proper head.condition
  increment : AllOf Expr.Proper head.increment

theorem yields_forHead (tokens : List Token) : (forHead tokens).Yields ForHead.Proper := by
  refine yields_bind (yields_expect .leftParen .noForParen tokens) ?_
  intro paren rest h hParen
  refine yields_bind (yields_forInitializer rest) ?_
  intro initializer rest h hInitializer
  refine yields_bind (yields_forClause .semicolon .openForCondition rest) ?_
  intro condition rest h hCondition
  refine yields_map (yields_forClause .rightParen .openForClauses rest) ?_
  intro increment hIncrement
  exact ⟨hInitializer, hCondition, hIncrement⟩

/-- The `while` loop that a `for` loop stands for is made of its clauses and its body. -/
theorem proper_loop {head : ForHead} {body : Stmt} (hHead : head.Proper) (hBody : body.Proper) :
    (head.loop body).Proper := by
  obtain ⟨initializer, condition, increment⟩ := head
  obtain ⟨hInitializer, hCondition, hIncrement⟩ := hHead
  have hTest : (condition.getD (.literal (.bool true))).Proper := by
    cases condition with
    | none => trivial
    | some e => exact hCondition
  cases increment with
  | none =>
    cases initializer with
    | none => exact ⟨hTest, hBody⟩
    | some s => exact ⟨hInitializer, ⟨hTest, hBody⟩, trivial⟩
  | some e =>
    have hRound : (Stmt.block [body, .expression e]).Proper := ⟨hBody, hIncrement, trivial⟩
    cases initializer with
    | none => exact ⟨hTest, hRound⟩
    | some s => exact ⟨hInitializer, ⟨hTest, hRound⟩, trivial⟩

-- ---------------------------------------------------------------------------
-- Statements
-- ---------------------------------------------------------------------------

/-- Recovery drops a declaration; it never makes one up. -/
theorem yields_recover {t : Token} {tail : List Token} (ht : t.kind ≠ .eof)
    {s : Step Stmt (t :: tail)} (hs : s.Yields Stmt.Proper) :
    (recover ht s).toStep.Yields (AllOf Stmt.Proper) := by
  cases s with
  | done v rest reports hr => exact hs
  | ranOff reports => trivial
  | abandoned rest reports hr =>
    rw [recover]
    split
    · trivial
    · trivial

section

variable {tokens : List Token}

theorem yields_ifStatement
    (ih : ∀ after, after.length < tokens.length → (statement after).Yields Stmt.Proper) :
    (ifStatement tokens).Yields Stmt.Proper := by
  rw [ifStatement]
  refine yields_bind (yields_condition .noIfParen .openIfCondition tokens) ?_
  intro e rest hCondition he
  refine yields_andThen (ih rest hCondition.2) ?_
  intro thenBranch after h hThen
  cases after with
  | nil => trivial
  | cons t after =>
    dsimp only
    by_cases hElse : t.kind = .elseKw
    · rw [if_pos hElse]
      have hLess : after.length < tokens.length := Nat.lt_trans h.length_tail_lt hCondition.2
      refine yields_within _ (yields_map (ih after hLess) ?_)
      intro elseBranch hBranch
      exact ⟨he, hThen, hBranch⟩
    · rw [if_neg hElse]
      exact ⟨he, hThen⟩

theorem yields_whileStatement
    (ih : ∀ after, after.length < tokens.length → (statement after).Yields Stmt.Proper) :
    (whileStatement tokens).Yields Stmt.Proper := by
  rw [whileStatement]
  refine yields_bind (yields_condition .noWhileParen .openWhileCondition tokens) ?_
  intro e rest h he
  refine yields_map (ih rest h.2) ?_
  intro body hBody
  exact ⟨he, hBody⟩

theorem yields_forStatement
    (ih : ∀ after, after.length < tokens.length → (statement after).Yields Stmt.Proper) :
    (forStatement tokens).Yields Stmt.Proper := by
  rw [forStatement]
  refine yields_bind (yields_forHead tokens) ?_
  intro head rest h hHead
  refine yields_map (ih rest h.2) ?_
  intro body hBody
  exact proper_loop hHead hBody

theorem yields_declaration_of_statement {t : Token} {tail : List Token} (ht : t.kind ≠ .eof)
    (h : (statement (t :: tail)).Yields Stmt.Proper) :
    (declaration t tail ht).toStep.Yields (AllOf Stmt.Proper) := by
  rw [declaration]
  by_cases hVar : t.kind = .varKw
  · rw [if_pos hVar]
    exact yields_recover ht (yields_within _ (yields_varDeclaration tail))
  · rw [if_neg hVar]
    exact yields_recover ht h

end

/-- A declaration, if it was not dropped, in front of others. -/
theorem allProper_toList_append {s? : Option Stmt} {rest : List Stmt}
    (hFirst : AllOf Stmt.Proper s?) (hRest : Stmt.AllProper rest) :
    Stmt.AllProper (s?.toList ++ rest) := by
  cases s? with
  | none => exact hRest
  | some s => exact ⟨hFirst, hRest⟩

theorem yields_statement_and_block : ∀ tokens,
    (statement tokens).Yields Stmt.Proper ∧ (block tokens).Yields Stmt.AllProper := by
  apply statement_induct
  case statement =>
    intro tokens ihStatement ihBlock
    cases tokens with
    | nil =>
      rw [statement]
      trivial
    | cons t rest =>
      have ih : ∀ after, after.length < rest.length → (statement after).Yields Stmt.Proper := by
        intro after h
        have hLess : after.length < (t :: rest).length := by
          simp only [List.length_cons]
          omega
        exact ihStatement after hLess
      rw [statement]
      split
      · exact yields_within _ (yields_forStatement ih)
      · exact yields_within _ (yields_ifStatement ih)
      · exact yields_within _ (yields_printStatement rest)
      · exact yields_within _ (yields_whileStatement ih)
      · exact yields_within _ (yields_map (ihBlock rest (by simp)) fun body hBody => hBody)
      · exact yields_expressionStatement (t :: rest)
  case block =>
    intro tokens ihStatement ihBlock
    cases tokens with
    | nil =>
      rw [block]
      trivial
    | cons t rest =>
      rw [block]
      split
      · trivial
      · split
        · exact yields_abandon _ _
        · next ht =>
          refine yields_bind (yields_declaration_of_statement ht ihStatement) ?_
          intro s? rest h hFirst
          refine yields_map (ihBlock rest h.2) ?_
          intro more hMore
          exact allProper_toList_append hFirst hMore

theorem yields_declaration {t : Token} {tail : List Token} (ht : t.kind ≠ .eof) :
    (declaration t tail ht).toStep.Yields (AllOf Stmt.Proper) :=
  yields_declaration_of_statement ht (yields_statement_and_block (t :: tail)).1

-- ---------------------------------------------------------------------------
-- Programs
-- ---------------------------------------------------------------------------

/-- All statements of a program are proper, whatever was complained about. -/
theorem allProper_program (tokens : List Token) : Stmt.AllProper (program tokens).statements := by
  induction tokens using program.induct with
  | case1 =>
    rw [program]
    trivial
  | case2 t tail ht =>
    rw [program, dif_pos ht]
    trivial
  | case3 t tail ht s? rest reports hr hDone ih =>
    have hFirst := @yields_declaration t tail ht
    rw [hDone] at hFirst
    rw [program, dif_neg ht, hDone]
    exact allProper_toList_append hFirst ih
  | case4 t tail ht reports hRanOff =>
    rw [program, dif_neg ht, hRanOff]
    trivial

end Scriptlet.Parse
