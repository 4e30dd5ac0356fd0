import Scriptlet.Proofs.Grammar.Trees
import Scriptlet.Proofs.Tree.MapTokens

/-!
# Scriptlet — trees of other tokens

The grammar looks at the kinds of tokens, and the trees keep their values. So
tokens that are replaced by others of the same kinds and with the same values
have the tree they had, with its tokens replaced. And programs may be put one
behind the other: no declaration goes on into the next one.

## Results

* `ExprTree.mapTokens`, `StmtTree.mapTokens` — expressions and statements.
* `ProgramTree.mapTokens`   — programs.
* `ProgramTree.append`      — a program behind another.
-/

namespace Scriptlet.Grammar

variable {f : Token → Token}

/-- Tokens are replaced by tokens of the same kinds and with the same values. -/
structure KeepsKinds (f : Token → Token) : Prop where
  kind : ∀ t, (f t).kind = t.kind
  literal : ∀ t, (f t).literal = t.literal

/-- What is of a kind still is. -/
theorem KeepsKinds.of_kind (hf : KeepsKinds f) {t : Token} {kind : TokenKind}
    (h : t.kind = kind) : (f t).kind = kind := (hf.kind t).trans h

-- ---------------------------------------------------------------------------
-- Expressions
-- ---------------------------------------------------------------------------

/-- The node of a level keeps its operator. -/
theorem mapTokens_node {l : Scriptlet.Parse.Level} {operators : List TokenKind}
    {below : Nonterminal} {node : Expr → Token → Expr → Expr}
    (h : BinaryLevel l operators below node) (left right : Expr) (op : Token) :
    (node left op right).mapTokens f f =
      node (left.mapTokens f f) (f op) (right.mapTokens f f) := by
  cases h <;> rfl

theorem ExprTree.mapTokens (hf : KeepsKinds f) {n : Nonterminal} {ts : List Token} {e : Expr}
    (h : ExprTree n ts e) : ExprTree n (ts.map f) (e.mapTokens f f) := by
  induction h with
  | expression _ ih => exact .expression ih
  | assign hName hEquals _ ih => exact .assign (hf.of_kind hName) (hf.of_kind hEquals) ih
  | noAssign _ ih => exact .noAssign ih
  | operand hLevel _ ih => exact .operand hLevel ih
  | @operator l operators below node ts us op left right hLevel hOp _ _ ihLeft ihRight =>
    rw [mapTokens_node hLevel, List.map_append, List.map_cons]
    rw [← hf.kind op] at hOp
    exact .operator hLevel hOp ihLeft ihRight
  | @unary op ts e hOp _ ih =>
    rw [← hf.kind op] at hOp
    exact .unary hOp ih
  | noUnary _ ih => exact .noUnary ih
  | @value t hValue =>
    rw [← hf.kind t] at hValue
    rw [← hf.literal t]
    exact .value hValue
  | trueValue hTrue => exact .trueValue (hf.of_kind hTrue)
  | falseValue hFalse => exact .falseValue (hf.of_kind hFalse)
  | nilValue hNil => exact .nilValue (hf.of_kind hNil)
  | name hName => exact .name (hf.of_kind hName)
  | group hLeft hRight _ ih =>
    rw [List.map_cons, List.map_append]
    exact .group (hf.of_kind hLeft) (hf.of_kind hRight) ih

theorem OptionalTree.mapTokens (hf : KeepsKinds f) {ts : List Token} {e? : Option Expr}
    (h : OptionalTree ts e?) : OptionalTree (ts.map f) (e?.map (·.mapTokens f f)) := by
  cases h with
  | absent => exact .absent
  | present h => exact .present (h.mapTokens hf)

theorem ConditionTree.mapTokens (hf : KeepsKinds f) {ts : List Token} {e : Expr}
    (h : ConditionTree ts e) : ConditionTree (ts.map f) (e.mapTokens f f) := by
  cases h with
  | mk hLeft hRight h =>
    rw [List.map_cons, List.map_append]
    exact .mk (hf.of_kind hLeft) (hf.of_kind hRight) (h.mapTokens hf)

-- ---------------------------------------------------------------------------
-- Statements
-- ---------------------------------------------------------------------------

theorem VarDeclTree.mapTokens (hf : KeepsKinds f) {ts : List Token} {s : Stmt}
    (h : VarDeclTree ts s) : VarDeclTree (ts.map f) (s.mapTokens f f) := by
  cases h with
  | bare hVar hName hEnd => exact .bare (hf.of_kind hVar) (hf.of_kind hName) (hf.of_kind hEnd)
  | initialized hVar hName hEquals hEnd h =>
    simp only [List.map_cons, List.map_append]
    exact .initialized (hf.of_kind hVar) (hf.of_kind hName) (hf.of_kind hEquals)
      (hf.of_kind hEnd) (h.mapTokens hf)

theorem ExprStmtTree.mapTokens (hf : KeepsKinds f) {ts : List Token} {s : Stmt}
    (h : ExprStmtTree ts s) : ExprStmtTree (ts.map f) (s.mapTokens f f) := by
  cases h with
  | mk hEnd h =>
    rw [List.map_append]
    exact .mk (hf.of_kind hEnd) (h.mapTokens hf)

theorem ForInitTree.mapTokens (hf : KeepsKinds f) {ts : List Token} {s? : Option Stmt}
    (h : ForInitTree ts s?) : ForInitTree (ts.map f) (s?.map (·.mapTokens f f)) := by
  cases h with
  | absent hEnd => exact .absent (hf.of_kind hEnd)
  | varDecl h => exact .varDecl (h.mapTokens hf)
  | exprStmt h => exact .exprStmt (h.mapTokens hf)

/-- What a `for` loop becomes keeps its parts. -/
theorem mapTokens_expandFor (initializer : Option Stmt) (condition increment : Option Expr)
    (body : Stmt) :
    (expandFor initializer condition increment body).mapTokens f f =
      expandFor (initializer.map (·.mapTokens f f)) (condition.map (·.mapTokens f f))
        (increment.map (·.mapTokens f f)) (body.mapTokens f f) := by
  cases initializer <;> cases condition <;> cases increment <;> rfl

/-- A part of a block or a program with its tokens replaced. -/
def mapPart (f : Token → Token) (part : List Token × Stmt) : List Token × Stmt :=
  (part.1.map f, part.2.mapTokens f f)

theorem flatMap_fst_mapPart (parts : List (List Token × Stmt)) :
    (parts.map (mapPart f)).flatMap Prod.fst = (parts.flatMap Prod.fst).map f := by
  rw [List.flatMap_map, List.map_flatMap]
  rfl

theorem map_snd_mapPart (parts : List (List Token × Stmt)) :
    (parts.map (mapPart f)).map Prod.snd = Stmt.mapAllTokens f f (parts.map Prod.snd) := by
  rw [Stmt.mapAllTokens_eq_map, List.map_map, List.map_map]
  rfl

theorem StmtTree.mapTokens (hf : KeepsKinds f) {form : Form} {ts : List Token} {s : Stmt}
    (h : StmtTree form ts s) : StmtTree form (ts.map f) (s.mapTokens f f) := by
  induction h with
  | varDecl h => exact .varDecl (h.mapTokens hf)
  | statement _ ih => exact .statement ih
  | expression h => exact .expression (h.mapTokens hf)
  | print hPrint hEnd h =>
    rw [List.map_cons, List.map_append]
    exact .print (hf.of_kind hPrint) (hf.of_kind hEnd) (h.mapTokens hf)
  | block parts hLeft hRight _ ih =>
    have hParts : ∀ part ∈ parts.map (mapPart f), StmtTree .declaration part.1 part.2 := by
      intro part hPart
      obtain ⟨before, hBefore, rfl⟩ := List.mem_map.mp hPart
      exact ih before hBefore
    have hBlock := StmtTree.block _ (hf.of_kind hLeft) (hf.of_kind hRight) hParts
    rw [flatMap_fst_mapPart, map_snd_mapPart] at hBlock
    rw [List.map_cons, List.map_append]
    exact hBlock
  | ifThen hIf hCondition _ ih =>
    rw [List.map_cons, List.map_append]
    exact .ifThen (hf.of_kind hIf) (hCondition.mapTokens hf) ih
  | ifElse hIf hElse hCondition _ _ ihThen ihElse =>
    simp only [List.map_cons, List.map_append]
    exact .ifElse (hf.of_kind hIf) (hf.of_kind hElse) (hCondition.mapTokens hf) ihThen ihElse
  | whileLoop hWhile hCondition _ ih =>
    rw [List.map_cons, List.map_append]
    exact .whileLoop (hf.of_kind hWhile) (hCondition.mapTokens hf) ih
  | forLoop hFor hLeft hSemicolon hRight hInit hCondition hIncrement _ ih =>
    rw [mapTokens_expandFor]
    simp only [List.map_cons, List.map_append]
    exact .forLoop (hf.of_kind hFor) (hf.of_kind hLeft) (hf.of_kind hSemicolon)
      (hf.of_kind hRight) (hInit.mapTokens hf) (hCondition.mapTokens hf)
      (hIncrement.mapTokens hf) ih

-- ---------------------------------------------------------------------------
-- Programs
-- ---------------------------------------------------------------------------

theorem ProgramTree.mapTokens (hf : KeepsKinds f) {tokens : List Token} {statements : List Stmt}
    (h : ProgramTree tokens statements) :
    ProgramTree (tokens.map f) (Stmt.mapAllTokens f f statements) := by
  obtain ⟨parts, hParts, rfl, rfl⟩ := h
  refine ⟨parts.map (mapPart f), ?_, flatMap_fst_mapPart parts, map_snd_mapPart parts⟩
  intro part hPart
  obtain ⟨before, hBefore, rfl⟩ := List.mem_map.mp hPart
  exact (hParts before hBefore).mapTokens hf

/-- An `if` at the end of a program takes no `else` from the next one, which starts with none. -/
theorem ProgramTree.append {tokens others : List Token} {statements further : List Stmt}
    (h : ProgramTree tokens statements) (h' : ProgramTree others further) :
    ProgramTree (tokens ++ others) (statements ++ further) := by
  obtain ⟨parts, hParts, rfl, rfl⟩ := h
  obtain ⟨parts', hParts', rfl, rfl⟩ := h'
  refine ⟨parts ++ parts', ?_, List.flatMap_append, List.map_append⟩
  intro part hPart
  rcases List.mem_append.mp hPart with hMem | hMem
  · exact hParts part hMem
  · exact hParts' part hMem

end Scriptlet.Grammar
