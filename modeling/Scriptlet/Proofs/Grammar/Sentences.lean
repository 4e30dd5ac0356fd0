import Scriptlet.Proofs.Grammar.Trees

/-!
# Scriptlet — sentences are what has a tree

Every tree is the tree of a sentence, and every sentence has a tree. The second
half is where the rules and the trees differ: the rules let an `else` stand
behind any `if`, so a sentence may be derived with an `else` that its tree hands
to another one. An `else` behind a dangling statement goes to the last open `if`
in it.

## Results

* `derives_of_exprTree`, `derives_of_stmtTree` — from trees to derivations.
* `attach_else`              — an `else` behind a dangling statement finds its `if`.
* `treeLanguage_closed`      — what has a tree is closed under the rules.
* `sentence_iff_programTree` — sentences are what has a tree.
-/

namespace Scriptlet.Grammar

open Scriptlet.Parse (Level)

-- ---------------------------------------------------------------------------
-- From trees to derivations
-- ---------------------------------------------------------------------------

/-- A token in front of what a right-hand side derives. -/
theorem derives_cons {kind : TokenKind} {e : Ebnf Nonterminal TokenKind} {t : Token}
    {ts : List Token} (ht : t.kind = kind) (h : Derives grammar e (ts.map Token.kind)) :
    Derives grammar (tok kind ++ e) ((t :: ts).map Token.kind) := by
  rw [List.map_cons, ht]
  exact .seq .token h

theorem derives_append {a b : Ebnf Nonterminal TokenKind} {ts us : List Token}
    (ha : Derives grammar a (ts.map Token.kind)) (hb : Derives grammar b (us.map Token.kind)) :
    Derives grammar (a ++ b) ((ts ++ us).map Token.kind) := by
  rw [List.map_append]
  exact .seq ha hb

theorem derives_single {kind : TokenKind} {t : Token} (ht : t.kind = kind) :
    Derives grammar (tok kind) ([t].map Token.kind) := by
  rw [List.map_singleton, ht]
  exact .token

/-- The rule of a level: operands of the next one with its operators between them. -/
theorem grammar_level {l : Level} {operators : List TokenKind} {below : Nonterminal}
    {node : Expr → Token → Expr → Expr} (h : BinaryLevel l operators below node) :
    ∃ operator, grammar (.level l) = sym below ++ (operator ++ sym below).many ∧
      (∀ k ∈ operators, Derives grammar operator [k]) ∧
      ∀ L : Nonterminal → Language Token, ∀ w ∈ operator.language Token.kind L,
        ∃ t, t.kind ∈ operators ∧ w = [t] := by
  cases h
  case or | and =>
    refine ⟨_, rfl, ?_, ?_⟩
    · intro k hk
      rw [List.mem_singleton.mp hk]
      exact .token
    · intro L w hw
      obtain ⟨t, ht, rfl⟩ := hw
      exact ⟨t, by simp [ht], rfl⟩
  case equality | term | factor =>
    refine ⟨_, rfl, ?_, ?_⟩
    · intro k hk
      simp only [List.mem_cons, List.not_mem_nil, or_false] at hk
      rcases hk with rfl | rfl
      · exact .left .token
      · exact .right .token
    · intro L w hw
      rcases mem_language_orElse.mp hw with ⟨t, ht, rfl⟩ | ⟨t, ht, rfl⟩
      · exact ⟨t, by simp [ht], rfl⟩
      · exact ⟨t, by simp [ht], rfl⟩
  case comparison =>
    refine ⟨_, rfl, ?_, ?_⟩
    · intro k hk
      simp only [List.mem_cons, List.not_mem_nil, or_false] at hk
      rcases hk with rfl | rfl | rfl | rfl
      · exact .left .token
      · exact .right (.left .token)
      · exact .right (.right (.left .token))
      · exact .right (.right (.right .token))
    · intro L w hw
      rcases hw with ⟨t, ht, rfl⟩ | ⟨t, ht, rfl⟩ | ⟨t, ht, rfl⟩ | ⟨t, ht, rfl⟩
      all_goals exact ⟨t, by simp [ht], rfl⟩

/-- A tree of an expression is the tree of a derivation. -/
theorem derives_of_exprTree {n : Nonterminal} {ts : List Token} {e : Expr}
    (h : ExprTree n ts e) : Derives grammar (sym n) (ts.map Token.kind) := by
  induction h with
  | expression h ih => exact .rule ih
  | assign hName hEquals h ih =>
    exact .rule (.left (derives_cons hName (derives_cons hEquals ih)))
  | noAssign h ih => exact .rule (.right ih)
  | operand hLevel h ih =>
    obtain ⟨operator, hRule, -, -⟩ := grammar_level hLevel
    refine .rule ?_
    rw [hRule, ← List.append_nil (List.map _ _)]
    exact .seq ih .none
  | operator hLevel hOp hLeft hRight ihLeft ihRight =>
    obtain ⟨operator, hRule, hOperator, -⟩ := grammar_level hLevel
    cases ihLeft with
    | rule hChain =>
      rw [hRule] at hChain
      refine .rule ?_
      rw [hRule, List.map_append]
      obtain ⟨u, v, hFirst, hMany, huv⟩ := derives_append_iff.mp hChain
      rw [← huv, List.append_assoc]
      exact .seq hFirst (derives_many_snoc hMany (.seq (hOperator _ hOp) ihRight))
  | unary hOp h ih =>
    rcases hOp with hOp | hOp
    · exact .rule (.left (.seq (.left (derives_single hOp)) ih))
    · exact .rule (.left (.seq (.right (derives_single hOp)) ih))
  | noUnary h ih => exact .rule (.right ih)
  | value hKind =>
    rcases hKind with hKind | hKind
    · exact .rule (.left (derives_single hKind))
    · exact .rule (.right (.left (derives_single hKind)))
  | trueValue hKind => exact .rule (.right (.right (.left (derives_single hKind))))
  | falseValue hKind => exact .rule (.right (.right (.right (.left (derives_single hKind)))))
  | nilValue hKind =>
    exact .rule (.right (.right (.right (.right (.left (derives_single hKind))))))
  | name hKind =>
    exact .rule (.right (.right (.right (.right (.right (.left (derives_single hKind)))))))
  | group hLeft hRight h ih =>
    exact .rule (.right (.right (.right (.right (.right (.right
      (derives_cons hLeft (derives_append ih (derives_single hRight)))))))))

/-- A condition in front of what a right-hand side derives. -/
theorem derives_condition {e : Ebnf Nonterminal TokenKind} {cs ts : List Token} {c : Expr}
    (hc : ConditionTree cs c) (h : Derives grammar e (ts.map Token.kind)) :
    Derives grammar (tok .leftParen ++ (sym .expression ++ (tok .rightParen ++ e)))
      ((cs ++ ts).map Token.kind) := by
  obtain ⟨hLeft, hRight, he⟩ := hc
  rw [List.cons_append, List.append_assoc]
  exact derives_cons hLeft (derives_append (derives_of_exprTree he) (derives_cons hRight h))

theorem derives_of_optionalTree {ts : List Token} {e? : Option Expr} (h : OptionalTree ts e?) :
    Derives grammar (sym .expression).opt (ts.map Token.kind) := by
  cases h with
  | absent => exact .absent
  | present h => exact .present (derives_of_exprTree h)

theorem derives_of_varDeclTree {ts : List Token} {s : Stmt} (h : VarDeclTree ts s) :
    Derives grammar (sym .varDecl) (ts.map Token.kind) := by
  cases h with
  | bare hVar hName hEnd =>
    have hNone : Derives grammar (tok .equal ++ sym .expression).opt
        (([] : List Token).map Token.kind) := .absent
    exact .rule (derives_cons hVar (derives_cons hName
      (derives_append hNone (derives_single hEnd))))
  | initialized hVar hName hEquals hEnd he =>
    refine .rule (derives_cons hVar (derives_cons hName ?_))
    rw [← List.cons_append]
    exact derives_append (.present (derives_cons hEquals (derives_of_exprTree he)))
      (derives_single hEnd)

theorem derives_of_exprStmtTree {ts : List Token} {s : Stmt} (h : ExprStmtTree ts s) :
    Derives grammar (sym .exprStmt) (ts.map Token.kind) := by
  obtain ⟨hEnd, he⟩ := h
  exact .rule (derives_append (derives_of_exprTree he) (derives_single hEnd))

theorem derives_of_forInitTree {ts : List Token} {s? : Option Stmt} (h : ForInitTree ts s?) :
    Derives grammar (sym .varDecl <|> sym .exprStmt <|> tok .semicolon) (ts.map Token.kind) := by
  cases h with
  | absent hEnd => exact .right (.right (derives_single hEnd))
  | varDecl h => exact .left (derives_of_varDeclTree h)
  | exprStmt h => exact .right (.left (derives_of_exprStmtTree h))

/-- The nonterminal of a declaration or a statement. -/
def Form.symbol : Form → Nonterminal
  | declaration => .declaration
  | statement _ => .statement

/-- A tree of a declaration or a statement is the tree of a derivation. -/
theorem derives_of_stmtTree {form : Form} {ts : List Token} {s : Stmt} (h : StmtTree form ts s) :
    Derives grammar (sym form.symbol) (ts.map Token.kind) := by
  induction h with
  | varDecl h => exact .rule (.left (derives_of_varDeclTree h))
  | statement h ih => exact .rule (.right ih)
  | expression h =>
    exact .rule (.right (.right (.right (.right (.right (derives_of_exprStmtTree h))))))
  | print hPrint hEnd he =>
    refine .rule (.right (.right (.left (.rule (derives_cons hPrint ?_)))))
    exact derives_append (derives_of_exprTree he) (derives_single hEnd)
  | block parts hLeft hRight hParts ih =>
    refine .rule (.right (.right (.right (.right (.left (.rule (derives_cons hLeft ?_)))))))
    refine derives_append ?_ (derives_single hRight)
    rw [List.map_flatMap]
    exact derives_many_flatMap ih
  | @ifThen keyword cs ts c s dangling hIf hc h ih =>
    refine .rule (.right (.left (.rule (derives_cons hIf (derives_condition hc ?_)))))
    rw [← List.append_nil ts]
    exact derives_append ih .absent
  | ifElse hIf hElse hc hThen hBranch ihThen ihElse =>
    refine .rule (.right (.left (.rule (derives_cons hIf (derives_condition hc ?_)))))
    exact derives_append ihThen (.present (derives_cons hElse ihElse))
  | whileLoop hWhile hc h ih =>
    exact .rule (.right (.right (.right (.left (.rule
      (derives_cons hWhile (derives_condition hc ih)))))))
  | forLoop hFor hLeft hSemicolon hRight hInit hc hi h ih =>
    refine .rule (.left (.rule (derives_cons hFor (derives_cons hLeft ?_))))
    refine derives_append (derives_of_forInitTree hInit) ?_
    refine derives_append (derives_of_optionalTree hc) (derives_cons hSemicolon ?_)
    exact derives_append (derives_of_optionalTree hi) (derives_cons hRight ih)

-- ---------------------------------------------------------------------------
-- An else finds its if
-- ---------------------------------------------------------------------------

/-- An `else` and a branch behind a dangling statement belong to the last open `if` in it. -/
theorem attach_else {form : Form} {ts us : List Token} {s branch : Stmt} {elseKeyword : Token}
    {dangling : Bool} (h : StmtTree form ts s) (hForm : form = .statement true)
    (hElse : elseKeyword.kind = .elseKw) (hBranch : StmtTree (.statement dangling) us branch) :
    ∃ dangling' s', StmtTree (.statement dangling') (ts ++ elseKeyword :: us) s' := by
  induction h with
  | varDecl h => cases hForm
  | statement h ih => cases hForm
  | expression h => cases hForm
  | print hPrint hEnd he => cases hForm
  | block parts hLeft hRight hParts ih => cases hForm
  | @ifThen keyword cs ts c s inner hIf hc h ih =>
    rw [List.cons_append, List.append_assoc]
    cases inner with
    | false => exact ⟨dangling, _, .ifElse hIf hElse hc h hBranch⟩
    | true =>
      obtain ⟨_, s', h'⟩ := ih rfl
      exact ⟨true, _, .ifThen hIf hc h'⟩
  | ifElse hIf hElse' hc hThen h ihThen ih =>
    obtain ⟨dangling', s', h'⟩ := ih hForm
    rw [List.cons_append, List.append_assoc, List.append_assoc, List.cons_append]
    exact ⟨dangling', _, .ifElse hIf hElse' hc hThen h'⟩
  | whileLoop hWhile hc h ih =>
    obtain ⟨dangling', s', h'⟩ := ih hForm
    rw [List.cons_append, List.append_assoc]
    exact ⟨dangling', _, .whileLoop hWhile hc h'⟩
  | forLoop hFor hLeft hSemicolon hRight hInit hc hi h ih =>
    obtain ⟨dangling', s', h'⟩ := ih hForm
    simp only [List.cons_append, List.append_assoc]
    exact ⟨dangling', _, .forLoop hFor hLeft hSemicolon hRight hInit hc hi h'⟩

-- ---------------------------------------------------------------------------
-- From sentences to trees
-- ---------------------------------------------------------------------------

/-- Whether tokens have a tree that a nonterminal stands for. -/
def HasTree : Nonterminal → List Token → Prop
  | .program, ts => ∃ us eof ss, eof.kind = .eof ∧ ProgramTree us ss ∧ us ++ [eof] = ts
  | .declaration, ts => ∃ s, StmtTree .declaration ts s
  | .varDecl, ts => ∃ s, VarDeclTree ts s
  | .exprStmt, ts => ∃ s, ExprStmtTree ts s
  | .statement, ts | .forStmt, ts | .ifStmt, ts | .printStmt, ts | .whileStmt, ts | .block, ts =>
    ∃ dangling s, StmtTree (.statement dangling) ts s
  | n, ts => ∃ e, ExprTree n ts e

/-- The tokens that have a tree, for every nonterminal. -/
def treeLanguage (n : Nonterminal) : Language Token := {ts | HasTree n ts}

/-- What a right-hand side stands for if nonterminals stand for what has a tree. -/
abbrev Ebnf.trees (e : Ebnf Nonterminal TokenKind) : Language Token :=
  e.language Token.kind treeLanguage

theorem exists_binaryLevel (l : Level) :
    ∃ operators below node, BinaryLevel l operators below node := by
  cases l
  · exact ⟨_, _, _, .or⟩
  · exact ⟨_, _, _, .and⟩
  · exact ⟨_, _, _, .equality⟩
  · exact ⟨_, _, _, .comparison⟩
  · exact ⟨_, _, _, .term⟩
  · exact ⟨_, _, _, .factor⟩

/-- What stands below a level is an expression. -/
theorem hasTree_below {l : Level} {operators : List TokenKind} {below : Nonterminal}
    {node : Expr → Token → Expr → Expr} (h : BinaryLevel l operators below node)
    {ts : List Token} (ht : HasTree below ts) : ∃ e, ExprTree below ts e := by
  cases h <;> exact ht

/-- Further operators with their operands are taken up one by one from the left. -/
theorem exists_chain {l : Level} {operators : List TokenKind} {below : Nonterminal}
    {node : Expr → Token → Expr → Expr} (hLevel : BinaryLevel l operators below node)
    {operator : Ebnf Nonterminal TokenKind}
    (hOperator : ∀ w ∈ operator.trees, ∃ t, t.kind ∈ operators ∧ w = [t])
    {links : List (List Token)} (hLinks : ∀ link ∈ links, link ∈ (operator ++ sym below).trees) :
    ∀ {ts : List Token} {left : Expr}, ExprTree (.level l) ts left →
      ∃ e, ExprTree (.level l) (ts ++ links.flatten) e := by
  induction links with
  | nil =>
    intro ts left hLeft
    rw [List.flatten_nil, List.append_nil]
    exact ⟨left, hLeft⟩
  | cons link links ih =>
    intro ts left hLeft
    obtain ⟨w, hw, us, hus, hLink⟩ := mem_language_append.mp (hLinks link List.mem_cons_self)
    obtain ⟨op, hOp, rfl⟩ := hOperator w hw
    obtain ⟨right, hRight⟩ := hasTree_below hLevel hus
    have hNode := ExprTree.operator hLevel hOp hLeft hRight
    obtain ⟨e, he⟩ := ih (fun link h => hLinks link (List.mem_cons_of_mem _ h)) hNode
    refine ⟨e, ?_⟩
    rw [List.flatten_cons, ← hLink]
    simpa only [List.append_assoc, List.cons_append, List.nil_append] using he

theorem level_trees_le (l : Level) : (grammar (.level l)).trees ≤ treeLanguage (.level l) := by
  obtain ⟨operators, below, node, hLevel⟩ := exists_binaryLevel l
  obtain ⟨operator, hRule, -, hOperator⟩ := grammar_level hLevel
  intro ts hts
  rw [hRule] at hts
  obtain ⟨us, hus, vs, hvs, rfl⟩ := mem_language_append.mp hts
  obtain ⟨links, rfl, hLinks⟩ := mem_language_many.mp hvs
  obtain ⟨first, hFirst⟩ := hasTree_below hLevel hus
  exact exists_chain hLevel (hOperator treeLanguage) hLinks (.operand hLevel hFirst)

theorem primary_trees_le : (grammar .primary).trees ≤ treeLanguage .primary := by
  intro ts hts
  rcases hts with ⟨t, ht, rfl⟩ | ⟨t, ht, rfl⟩ | ⟨t, ht, rfl⟩ | ⟨t, ht, rfl⟩ | ⟨t, ht, rfl⟩ |
    ⟨t, ht, rfl⟩ | hGroup
  · exact ⟨_, .value (.inl ht)⟩
  · exact ⟨_, .value (.inr ht)⟩
  · exact ⟨_, .trueValue ht⟩
  · exact ⟨_, .falseValue ht⟩
  · exact ⟨_, .nilValue ht⟩
  · exact ⟨_, .name ht⟩
  · obtain ⟨left, hLeft, us, hus, rfl⟩ := mem_language_token_append.mp hGroup
    obtain ⟨vs, ⟨e, he⟩, ws, ⟨right, hRight, rfl⟩, rfl⟩ := mem_language_append.mp hus
    exact ⟨_, .group hLeft hRight he⟩

theorem varDecl_trees_le : (grammar .varDecl).trees ≤ treeLanguage .varDecl := by
  intro ts hts
  obtain ⟨var, hVar, us, hus, rfl⟩ := mem_language_token_append.mp hts
  obtain ⟨name, hName, vs, hvs, rfl⟩ := mem_language_token_append.mp hus
  obtain ⟨ws, hws, _, ⟨semicolon, hEnd, rfl⟩, rfl⟩ := mem_language_append.mp hvs
  rcases mem_language_opt.mp hws with rfl | hws
  · exact ⟨_, .bare hVar hName hEnd⟩
  · obtain ⟨equals, hEquals, es, ⟨e, he⟩, rfl⟩ := mem_language_token_append.mp hws
    exact ⟨_, .initialized hVar hName hEquals hEnd he⟩

theorem exists_optionalTree {ts : List Token} (h : ts ∈ (sym .expression).opt.trees) :
    ∃ e?, OptionalTree ts e? := by
  rcases mem_language_opt.mp h with rfl | ⟨e, he⟩
  · exact ⟨none, .absent⟩
  · exact ⟨some e, .present he⟩

/-- A condition in front of something, cut at its closing parenthesis. -/
theorem exists_conditionTree {e : Ebnf Nonterminal TokenKind} {ts : List Token}
    (h : ts ∈ (tok .leftParen ++ (sym .expression ++ (tok .rightParen ++ e))).trees) :
    ∃ cs c us, ConditionTree cs c ∧ us ∈ e.trees ∧ cs ++ us = ts := by
  obtain ⟨left, hLeft, us, hus, rfl⟩ := mem_language_token_append.mp h
  obtain ⟨es, ⟨c, hc⟩, vs, hvs, rfl⟩ := mem_language_append.mp hus
  obtain ⟨right, hRight, ws, hws, rfl⟩ := mem_language_token_append.mp hvs
  refine ⟨left :: (es ++ [right]), c, ws, .mk hLeft hRight hc, hws, ?_⟩
  simp

theorem forStmt_trees_le : (grammar .forStmt).trees ≤ treeLanguage .forStmt := by
  intro ts hts
  obtain ⟨keyword, hFor, us, hus, rfl⟩ := mem_language_token_append.mp hts
  obtain ⟨left, hLeft, vs, hvs, rfl⟩ := mem_language_token_append.mp hus
  obtain ⟨is, his, ws, hws, rfl⟩ := mem_language_append.mp hvs
  obtain ⟨cs, hcs, xs, hxs, rfl⟩ := mem_language_append.mp hws
  obtain ⟨semicolon, hSemicolon, ys, hys, rfl⟩ := mem_language_token_append.mp hxs
  obtain ⟨ss, hss, zs, hzs, rfl⟩ := mem_language_append.mp hys
  obtain ⟨right, hRight, bs, ⟨dangling, body, hBody⟩, rfl⟩ := mem_language_token_append.mp hzs
  obtain ⟨condition, hCondition⟩ := exists_optionalTree hcs
  obtain ⟨increment, hIncrement⟩ := exists_optionalTree hss
  have hInit : ∃ initializer, ForInitTree is initializer := by
    rcases his with ⟨s, hs⟩ | ⟨s, hs⟩ | ⟨end', hEnd, rfl⟩
    · exact ⟨some s, .varDecl hs⟩
    · exact ⟨some s, .exprStmt hs⟩
    · exact ⟨none, .absent hEnd⟩
  obtain ⟨initializer, hInit⟩ := hInit
  exact ⟨dangling, _,
    .forLoop hFor hLeft hSemicolon hRight hInit hCondition hIncrement hBody⟩

/-- The `else` that a derivation gives to an `if` may belong to one inside its first branch. -/
theorem ifStmt_trees_le : (grammar .ifStmt).trees ≤ treeLanguage .ifStmt := by
  intro ts hts
  obtain ⟨keyword, hIf, us, hus, rfl⟩ := mem_language_token_append.mp hts
  obtain ⟨cs, c, vs, hc, hvs, rfl⟩ := exists_conditionTree hus
  obtain ⟨bs, ⟨dangling, s, hs⟩, ws, hws, rfl⟩ := mem_language_append.mp hvs
  rcases mem_language_opt.mp hws with rfl | hws
  · rw [List.append_nil]
    exact ⟨true, _, .ifThen hIf hc hs⟩
  · obtain ⟨elseKeyword, hElse, es, ⟨dangling', s', hs'⟩, rfl⟩ :=
      mem_language_token_append.mp hws
    cases dangling with
    | false => exact ⟨dangling', _, .ifElse hIf hElse hc hs hs'⟩
    | true =>
      obtain ⟨_, branch, hBranch⟩ := attach_else hs rfl hElse hs'
      exact ⟨true, _, .ifThen hIf hc hBranch⟩

theorem printStmt_trees_le : (grammar .printStmt).trees ≤ treeLanguage .printStmt := by
  intro ts hts
  obtain ⟨print, hPrint, us, hus, rfl⟩ := mem_language_token_append.mp hts
  obtain ⟨es, ⟨e, he⟩, _, ⟨semicolon, hEnd, rfl⟩, rfl⟩ := mem_language_append.mp hus
  exact ⟨false, _, .print hPrint hEnd he⟩

theorem whileStmt_trees_le : (grammar .whileStmt).trees ≤ treeLanguage .whileStmt := by
  intro ts hts
  obtain ⟨keyword, hWhile, us, hus, rfl⟩ := mem_language_token_append.mp hts
  obtain ⟨cs, c, vs, hc, ⟨dangling, s, hs⟩, rfl⟩ := exists_conditionTree hus
  exact ⟨dangling, _, .whileLoop hWhile hc hs⟩

/-- Declarations one after the other, each with its tree. -/
theorem exists_parts {ts : List Token} (h : ts ∈ (sym .declaration).many.trees) :
    ∃ parts : List (List Token × Stmt), (∀ part ∈ parts, StmtTree .declaration part.1 part.2) ∧
      parts.flatMap Prod.fst = ts := by
  obtain ⟨pieces, rfl, hPieces⟩ := mem_language_many.mp h
  clear h
  induction pieces with
  | nil => exact ⟨[], by simp, rfl⟩
  | cons piece pieces ih =>
    have hTail : ∀ other ∈ pieces, other ∈ (sym .declaration).trees :=
      fun other h => hPieces other (List.mem_cons_of_mem piece h)
    obtain ⟨parts, hParts, hTokens⟩ := ih hTail
    obtain ⟨s, hs⟩ := hPieces piece List.mem_cons_self
    refine ⟨(piece, s) :: parts, ?_, ?_⟩
    · intro part hPart
      rcases List.mem_cons.mp hPart with rfl | hPart
      · exact hs
      · exact hParts part hPart
    · rw [List.flatMap_cons, hTokens, List.flatten_cons]

theorem block_trees_le : (grammar .block).trees ≤ treeLanguage .block := by
  intro ts hts
  obtain ⟨left, hLeft, us, hus, rfl⟩ := mem_language_token_append.mp hts
  obtain ⟨vs, hvs, _, ⟨right, hRight, rfl⟩, rfl⟩ := mem_language_append.mp hus
  obtain ⟨parts, hParts, rfl⟩ := exists_parts hvs
  exact ⟨false, _, .block parts hLeft hRight hParts⟩

/-- What has a tree is closed under the rules of the grammar. -/
theorem treeLanguage_closed (n : Nonterminal) : (grammar n).trees ≤ treeLanguage n := by
  cases n with
  | program =>
    intro ts hts
    obtain ⟨us, hus, _, ⟨eof, hEof, rfl⟩, rfl⟩ := mem_language_append.mp hts
    obtain ⟨parts, hParts, hTokens⟩ := exists_parts hus
    exact ⟨us, eof, _, hEof, ⟨parts, hParts, hTokens, rfl⟩, rfl⟩
  | declaration =>
    intro ts hts
    rcases mem_language_orElse.mp hts with ⟨s, hs⟩ | ⟨dangling, s, hs⟩
    · exact ⟨s, .varDecl hs⟩
    · exact ⟨s, .statement hs⟩
  | varDecl => exact varDecl_trees_le
  | statement =>
    intro ts hts
    rcases hts with h | h | h | h | h | ⟨s, hs⟩
    · exact h
    · exact h
    · exact h
    · exact h
    · exact h
    · exact ⟨false, s, .expression hs⟩
  | forStmt => exact forStmt_trees_le
  | ifStmt => exact ifStmt_trees_le
  | printStmt => exact printStmt_trees_le
  | whileStmt => exact whileStmt_trees_le
  | block => exact block_trees_le
  | exprStmt =>
    intro ts hts
    obtain ⟨us, ⟨e, he⟩, _, ⟨semicolon, hEnd, rfl⟩, rfl⟩ := mem_language_append.mp hts
    exact ⟨_, .mk hEnd he⟩
  | expression =>
    intro ts hts
    obtain ⟨e, he⟩ := hts
    exact ⟨e, .expression he⟩
  | assignment =>
    intro ts hts
    rcases mem_language_orElse.mp hts with hAssign | ⟨e, he⟩
    · obtain ⟨name, hName, us, hus, rfl⟩ := mem_language_token_append.mp hAssign
      obtain ⟨equals, hEquals, vs, ⟨e, he⟩, rfl⟩ := mem_language_token_append.mp hus
      exact ⟨_, .assign hName hEquals he⟩
    · exact ⟨e, .noAssign he⟩
  | level l => exact level_trees_le l
  | unary =>
    intro ts hts
    rcases mem_language_orElse.mp hts with hUnary | ⟨e, he⟩
    · obtain ⟨op, hOperator, us, ⟨e, he⟩, rfl⟩ := mem_language_append.mp hUnary
      rcases mem_language_orElse.mp hOperator with ⟨op, hOp, rfl⟩ | ⟨op, hOp, rfl⟩
      · exact ⟨_, .unary (.inl hOp) he⟩
      · exact ⟨_, .unary (.inr hOp) he⟩
    · exact ⟨e, .noUnary he⟩
  | primary => exact primary_trees_le

/-- The sentences of the grammar are the programs that have a tree. -/
theorem sentence_iff_programTree {tokens : List Token} {eof : Token} (hEof : eof.kind = .eof) :
    Sentence ((tokens ++ [eof]).map Token.kind) ↔ ∃ statements, ProgramTree tokens statements := by
  constructor
  · intro h
    obtain ⟨us, eof', ss, -, hTree, hTokens⟩ :=
      mem_language_of_derives treeLanguage_closed h (tokens ++ [eof]) rfl
    obtain ⟨rfl, -⟩ := List.append_inj' hTokens rfl
    exact ⟨ss, hTree⟩
  · intro h
    obtain ⟨ss, parts, hParts, rfl, -⟩ := h
    refine .rule (derives_append ?_ (derives_single hEof))
    rw [List.map_flatMap]
    exact derives_many_flatMap fun part hPart => derives_of_stmtTree (hParts part hPart)

end Scriptlet.Grammar
