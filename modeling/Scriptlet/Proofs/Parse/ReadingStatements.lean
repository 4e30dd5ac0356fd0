import Scriptlet.Proofs.Parse.Reading

/-!
# Scriptlet — reading statements without a complaint

What each rule that reads a statement reads, in terms of the rules that it
calls. A declaration reads only what was not dropped: an abandoned one leaves a
complaint behind.

## Results

* `reads_varDeclaration`, `reads_forHead`, `reads_ifStatement` and so on — one for each rule.
* `reads_statement`, `reads_declaration`, `reads_block` — the dispatch on the next token.
* `Program.Reads`, `reads_program` — whole programs.
-/

namespace Scriptlet.Parse

open Step

variable {tokens rest : List Token}

-- ---------------------------------------------------------------------------
-- Statements without statements inside
-- ---------------------------------------------------------------------------

theorem reads_varDeclaration {s : Stmt} :
    (varDeclaration tokens).Reads s rest ↔
      ∃ name t after, tokens = name :: t :: after ∧ name.kind = .identifier ∧
        ((t.kind = .equal ∧ ∃ e close, (expression after).Reads e (close :: rest) ∧
            close.kind = .semicolon ∧ .varDecl name (some e) = s) ∨
          (t.kind = .semicolon ∧ .varDecl name none = s ∧ after = rest)) := by
  rw [varDeclaration, reads_andThen]
  constructor
  · intro hParts
    obtain ⟨name, middle, h, hName, hNext⟩ := hParts
    obtain ⟨rfl, hKind⟩ := (reads_expect (by decide)).mp hName
    cases middle with
    | nil => exact absurd hNext not_reads_ranOff
    | cons t after =>
      refine ⟨name, t, after, rfl, hKind, ?_⟩
      dsimp only at hNext
      split at hNext
      · next hEqual =>
        obtain ⟨e, close, he, hClose, rfl⟩ :=
          (reads_closed (by decide)).mp (reads_within.mp hNext)
        exact .inl ⟨hEqual, e, close, he, hClose, rfl⟩
      · obtain ⟨close, hClose, rfl⟩ := reads_map.mp (reads_within.mp hNext)
        obtain ⟨hEq, hSemicolon⟩ := (reads_expect (by decide)).mp hClose
        cases hEq
        exact .inr ⟨hSemicolon, rfl, rfl⟩
  · intro h
    obtain ⟨name, t, after, rfl, hKind, hNext⟩ := h
    have hName : (expect .identifier .noVariableName (name :: t :: after)).Reads name
        (t :: after) := (reads_expect (by decide)).mpr ⟨rfl, hKind⟩
    refine ⟨name, t :: after, hName.shorter, hName, ?_⟩
    dsimp only
    rcases hNext with ⟨hEqual, e, close, he, hClose, rfl⟩ | ⟨hSemicolon, rfl, rfl⟩
    · rw [if_pos hEqual, reads_within]
      exact (reads_closed (by decide)).mpr ⟨e, close, he, hClose, rfl⟩
    · have hEqual : t.kind ≠ .equal := by simp [hSemicolon]
      have hEnd : (expect .semicolon .openDeclaration (t :: after)).Reads t after :=
        (reads_expect (by decide)).mpr ⟨rfl, hSemicolon⟩
      rw [if_neg hEqual, reads_within]
      exact reads_map.mpr ⟨t, hEnd, rfl⟩

theorem reads_expressionStatement {s : Stmt} :
    (expressionStatement tokens).Reads s rest ↔
      ∃ e close, (expression tokens).Reads e (close :: rest) ∧ close.kind = .semicolon ∧
        .expression e = s :=
  reads_closed (by decide)

theorem reads_printStatement {s : Stmt} :
    (printStatement tokens).Reads s rest ↔
      ∃ e close, (expression tokens).Reads e (close :: rest) ∧ close.kind = .semicolon ∧
        .print e = s :=
  reads_closed (by decide)

/-- What a step reads behind a token of a kind. -/
theorem reads_behind {β : Type} {kind : TokenKind} (hKind : kind ≠ .eof) {complaint : Complaint}
    {next : (rest : List Token) → Step β rest} {w : β} :
    ((expect kind complaint tokens).bind fun _ rest _ => next rest).Reads w rest ↔
      ∃ t after, tokens = t :: after ∧ t.kind = kind ∧ (next after).Reads w rest := by
  rw [reads_bind]
  constructor
  · intro hParts
    obtain ⟨t, middle, h, ht, hNext⟩ := hParts
    obtain ⟨rfl, hk⟩ := (reads_expect hKind).mp ht
    exact ⟨t, middle, rfl, hk, hNext⟩
  · intro h
    obtain ⟨t, after, rfl, hk, hNext⟩ := h
    have ht : (expect kind complaint (t :: after)).Reads t after :=
      (reads_expect hKind).mpr ⟨rfl, hk⟩
    exact ⟨t, after, ht.shorter, ht, hNext⟩

theorem reads_condition {noParen openParen : Complaint} {e : Expr} :
    (condition noParen openParen tokens).Reads e rest ↔
      ∃ paren after close, tokens = paren :: after ∧ paren.kind = .leftParen ∧
        (expression after).Reads e (close :: rest) ∧ close.kind = .rightParen := by
  rw [condition, reads_behind (by decide)]
  constructor
  · intro h
    obtain ⟨paren, after, hEq, hParen, hNext⟩ := h
    obtain ⟨e', close, he, hClose, rfl⟩ := (reads_closed (by decide)).mp hNext
    exact ⟨paren, after, close, hEq, hParen, he, hClose⟩
  · intro h
    obtain ⟨paren, after, close, hEq, hParen, he, hClose⟩ := h
    refine ⟨paren, after, hEq, hParen, ?_⟩
    exact (reads_closed (by decide)).mpr ⟨e, close, he, hClose, rfl⟩

-- ---------------------------------------------------------------------------
-- The head of a for loop
-- ---------------------------------------------------------------------------

theorem reads_forInitializer {s? : Option Stmt} :
    (forInitializer tokens).Reads s? rest ↔
      ∃ t after, tokens = t :: after ∧
        ((t.kind = .semicolon ∧ none = s? ∧ after = rest) ∨
          (t.kind = .varKw ∧ ∃ s, (varDeclaration after).Reads s rest ∧ some s = s?) ∨
          (t.kind ≠ .semicolon ∧ t.kind ≠ .varKw ∧
            ∃ s, (expressionStatement tokens).Reads s rest ∧ some s = s?)) := by
  refine iff_exists_cons (p := fun tokens => (forInitializer tokens).Reads s? rest) ?_ ?_
  · exact not_reads_ranOff
  · intro t after hTokens
    subst hTokens
    rw [forInitializer]
    constructor
    · intro hReads
      split at hReads
      · next hSemicolon =>
        obtain ⟨hNone, hRest, -⟩ := reads_done.mp hReads
        exact .inl ⟨hSemicolon, hNone, hRest⟩
      · next hSemicolon =>
        split at hReads
        · next hVar =>
          have hDeclaration := reads_map.mp (reads_within.mp hReads)
          exact .inr (.inl ⟨hVar, hDeclaration⟩)
        · next hVar => exact .inr (.inr ⟨hSemicolon, hVar, reads_map.mp hReads⟩)
    · intro hNext
      rcases hNext with ⟨hSemicolon, rfl, rfl⟩ | ⟨hVar, hs⟩ | ⟨hSemicolon, hVar, hs⟩
      · rw [if_pos hSemicolon]
        exact reads_self
      · have hSemicolon : t.kind ≠ .semicolon := by simp [hVar]
        rw [if_neg hSemicolon, if_pos hVar, reads_within]
        exact reads_map.mpr hs
      · rw [if_neg hSemicolon, if_neg hVar]
        exact reads_map.mpr hs

theorem reads_forClause {close : TokenKind} (hClose : close ≠ .eof) {complaint : Complaint}
    {e? : Option Expr} :
    (forClause close complaint tokens).Reads e? rest ↔
      ∃ t after, tokens = t :: after ∧
        ((t.kind = close ∧ none = e? ∧ after = rest) ∨
          (t.kind ≠ close ∧ ∃ e closing, (expression tokens).Reads e (closing :: rest) ∧
            closing.kind = close ∧ some e = e?)) := by
  refine iff_exists_cons (p := fun tokens => (forClause close complaint tokens).Reads e? rest) ?_ ?_
  · exact not_reads_ranOff
  · intro t after hTokens
    subst hTokens
    rw [forClause]
    constructor
    · intro hReads
      split at hReads
      · next hKind =>
        obtain ⟨hNone, hRest, -⟩ := reads_done.mp hReads
        exact .inl ⟨hKind, hNone, hRest⟩
      · next hKind => exact .inr ⟨hKind, (reads_closed hClose).mp hReads⟩
    · intro hNext
      rcases hNext with ⟨hKind, rfl, rfl⟩ | ⟨hKind, he⟩
      · rw [if_pos hKind]
        exact reads_self
      · rw [if_neg hKind]
        exact (reads_closed hClose).mpr he

theorem reads_forHead {head : ForHead} :
    (forHead tokens).Reads head rest ↔
      ∃ paren after conditions increments, tokens = paren :: after ∧ paren.kind = .leftParen ∧
        (forInitializer after).Reads head.initializer conditions ∧
        (forClause .semicolon .openForCondition conditions).Reads head.condition increments ∧
        (forClause .rightParen .openForClauses increments).Reads head.increment rest := by
  rw [forHead, reads_behind (by decide)]
  constructor
  · intro h
    obtain ⟨paren, after, hEq, hParen, hNext⟩ := h
    obtain ⟨initializer, conditions, h₁, hInitializer, hNext⟩ := reads_bind.mp hNext
    obtain ⟨condition, increments, h₂, hCondition, hNext⟩ := reads_bind.mp hNext
    obtain ⟨increment, hIncrement, rfl⟩ := reads_map.mp hNext
    exact ⟨paren, after, conditions, increments, hEq, hParen, hInitializer, hCondition, hIncrement⟩
  · intro h
    obtain ⟨paren, after, conditions, increments, hEq, hParen, hInitializer, hCondition,
      hIncrement⟩ := h
    refine ⟨paren, after, hEq, hParen, reads_bind.mpr ?_⟩
    refine ⟨_, conditions, hInitializer.shorter, hInitializer, reads_bind.mpr ?_⟩
    exact ⟨_, increments, hCondition.shorter, hCondition, reads_map.mpr ⟨_, hIncrement, rfl⟩⟩

-- ---------------------------------------------------------------------------
-- Statements
-- ---------------------------------------------------------------------------

/-- An `else` behind the first branch is always taken up. -/
theorem reads_ifStatement {s : Stmt} :
    (ifStatement tokens).Reads s rest ↔
      ∃ e body thenBranch t after, (condition .noIfParen .openIfCondition tokens).Reads e body ∧
        (statement body).Reads thenBranch (t :: after) ∧
        ((t.kind = .elseKw ∧ ∃ elseBranch, (statement after).Reads elseBranch rest ∧
            .ifElse e thenBranch (some elseBranch) = s) ∨
          (t.kind ≠ .elseKw ∧ .ifElse e thenBranch none = s ∧ t :: after = rest)) := by
  rw [ifStatement, reads_bind]
  constructor
  · intro hParts
    obtain ⟨e, body, h, he, hNext⟩ := hParts
    obtain ⟨thenBranch, middle, hr, hThen, hNext⟩ := reads_andThen.mp hNext
    cases middle with
    | nil => exact absurd hNext not_reads_ranOff
    | cons t after =>
      refine ⟨e, body, thenBranch, t, after, he, hThen, ?_⟩
      dsimp only at hNext
      split at hNext
      · next hElse =>
        have hBranch := reads_map.mp (reads_within.mp hNext)
        exact .inl ⟨hElse, hBranch⟩
      · next hElse =>
        obtain ⟨hIf, hRest, -⟩ := reads_done.mp hNext
        exact .inr ⟨hElse, hIf, hRest⟩
  · intro h
    obtain ⟨e, body, thenBranch, t, after, he, hThen, hNext⟩ := h
    refine ⟨e, body, he.shorter, he, reads_andThen.mpr ?_⟩
    refine ⟨thenBranch, t :: after, hThen.shorter, hThen, ?_⟩
    dsimp only
    rcases hNext with ⟨hElse, hBranch⟩ | ⟨hElse, rfl, rfl⟩
    · rw [if_pos hElse, reads_within]
      exact reads_map.mpr hBranch
    · rw [if_neg hElse]
      exact reads_self

theorem reads_whileStatement {s : Stmt} :
    (whileStatement tokens).Reads s rest ↔
      ∃ e after body, (condition .noWhileParen .openWhileCondition tokens).Reads e after ∧
        (statement after).Reads body rest ∧ .whileLoop e body = s := by
  rw [whileStatement, reads_bind]
  constructor
  · intro hParts
    obtain ⟨e, after, h, he, hNext⟩ := hParts
    obtain ⟨body, hBody, hs⟩ := reads_map.mp hNext
    exact ⟨e, after, body, he, hBody, hs⟩
  · intro h
    obtain ⟨e, after, body, he, hBody, hs⟩ := h
    exact ⟨e, after, he.shorter, he, reads_map.mpr ⟨body, hBody, hs⟩⟩

theorem reads_forStatement {s : Stmt} :
    (forStatement tokens).Reads s rest ↔
      ∃ head after body, (forHead tokens).Reads head after ∧
        (statement after).Reads body rest ∧ head.loop body = s := by
  rw [forStatement, reads_bind]
  constructor
  · intro hParts
    obtain ⟨head, after, h, hHead, hNext⟩ := hParts
    obtain ⟨body, hBody, hs⟩ := reads_map.mp hNext
    exact ⟨head, after, body, hHead, hBody, hs⟩
  · intro h
    obtain ⟨head, after, body, hHead, hBody, hs⟩ := h
    exact ⟨head, after, hHead.shorter, hHead, reads_map.mpr ⟨body, hBody, hs⟩⟩

/-- The kinds that tell a statement from an expression statement. -/
def leadsStatement (kind : TokenKind) : Prop :=
  kind ∈ [TokenKind.forKw, .ifKw, .printKw, .whileKw, .leftBrace]

theorem reads_statement {s : Stmt} :
    (statement tokens).Reads s rest ↔
      ∃ t after, tokens = t :: after ∧
        ((t.kind = .forKw ∧ (forStatement after).Reads s rest) ∨
          (t.kind = .ifKw ∧ (ifStatement after).Reads s rest) ∨
          (t.kind = .printKw ∧ (printStatement after).Reads s rest) ∨
          (t.kind = .whileKw ∧ (whileStatement after).Reads s rest) ∨
          (t.kind = .leftBrace ∧ ∃ body, (block after).Reads body rest ∧ .block body = s) ∨
          (¬leadsStatement t.kind ∧ (expressionStatement tokens).Reads s rest)) := by
  refine iff_exists_cons (p := fun tokens => (statement tokens).Reads s rest) ?_ ?_
  · rw [statement]
    exact not_reads_ranOff
  · intro t after hTokens
    subst hTokens
    rw [statement]
    constructor
    · intro hReads
      split at hReads
      · next h => exact .inl ⟨h, reads_within.mp hReads⟩
      · next h => exact .inr (.inl ⟨h, reads_within.mp hReads⟩)
      · next h => exact .inr (.inr (.inl ⟨h, reads_within.mp hReads⟩))
      · next h => exact .inr (.inr (.inr (.inl ⟨h, reads_within.mp hReads⟩)))
      · next h =>
        have hBody := reads_map.mp (reads_within.mp hReads)
        exact .inr (.inr (.inr (.inr (.inl ⟨h, hBody⟩))))
      · next hFor hIf hPrint hWhile hBrace =>
        refine .inr (.inr (.inr (.inr (.inr ⟨?_, hReads⟩))))
        intro hLeads
        simp only [leadsStatement, List.mem_cons, List.not_mem_nil, or_false] at hLeads
        rcases hLeads with h | h | h | h | h
        · exact hFor h
        · exact hIf h
        · exact hPrint h
        · exact hWhile h
        · exact hBrace h
    · intro hNext
      rcases hNext with ⟨h, hs⟩ | ⟨h, hs⟩ | ⟨h, hs⟩ | ⟨h, hs⟩ | ⟨h, hs⟩ | ⟨h, hs⟩
      · rw [h]
        exact reads_within.mpr hs
      · rw [h]
        exact reads_within.mpr hs
      · rw [h]
        exact reads_within.mpr hs
      · rw [h]
        exact reads_within.mpr hs
      · rw [h]
        exact reads_within.mpr (reads_map.mpr hs)
      · have hNot : t.kind ≠ .forKw ∧ t.kind ≠ .ifKw ∧ t.kind ≠ .printKw ∧ t.kind ≠ .whileKw ∧
            t.kind ≠ .leftBrace := by
          simpa [leadsStatement] using h
        obtain ⟨hFor, hIf, hPrint, hWhile, hBrace⟩ := hNot
        split
        · next hKind => exact absurd hKind hFor
        · next hKind => exact absurd hKind hIf
        · next hKind => exact absurd hKind hPrint
        · next hKind => exact absurd hKind hWhile
        · next hKind => exact absurd hKind hBrace
        · exact hs

/-- What becomes of a step that kept within its file: an abandoned one has complained. -/
theorem reads_recover {t : Token} {tail : List Token} (ht : t.kind ≠ .eof)
    {step : Step Stmt (t :: tail)} (hWithin : step.WithinFile) {s? : Option Stmt} :
    (recover ht step).toStep.Reads s? rest ↔ ∃ s, some s = s? ∧ step.Reads s rest := by
  cases step with
  | done s after reports hr =>
    rw [recover, Declared.toStep, reads_done]
    constructor
    · intro h
      obtain ⟨rfl, rfl, rfl⟩ := h
      exact ⟨s, rfl, reads_self⟩
    · intro h
      obtain ⟨s', rfl, hs⟩ := h
      obtain ⟨rfl, rfl, rfl⟩ := reads_done.mp hs
      exact ⟨rfl, rfl, rfl⟩
  | ranOff reports =>
    refine iff_of_false not_reads_ranOff ?_
    intro h
    obtain ⟨s, -, hs⟩ := h
    exact not_reads_ranOff hs
  | abandoned after reports hr =>
    refine iff_of_false ?_ ?_
    · rw [recover]
      split
      · exact not_reads_ranOff
      · intro h
        obtain ⟨-, -, hNil⟩ := reads_done.mp h
        exact hWithin.2 hNil
    · intro h
      obtain ⟨s, -, hs⟩ := h
      exact not_reads_abandoned hs

/-- A declaration that reads something was not dropped. -/
theorem reads_declaration {t : Token} {tail : List Token} (ht : t.kind ≠ .eof)
    {s? : Option Stmt} :
    (declaration t tail ht).toStep.Reads s? rest ↔
      ∃ s, some s = s? ∧
        ((t.kind = .varKw ∧ (varDeclaration tail).Reads s rest) ∨
          (t.kind ≠ .varKw ∧ (statement (t :: tail)).Reads s rest)) := by
  unfold declaration
  split
  · next hVar =>
    have hTail : ReadUpTo tail (t :: tail) := ReadUpTo.tail ht tail
    rw [reads_recover ht (withinFile_within _ hTail (withinFile_varDeclaration tail))]
    simp [hVar, reads_within]
  · next hVar =>
    rw [reads_recover ht (withinFile_statement (t :: tail))]
    simp [hVar]

theorem reads_block {body : List Stmt} :
    (block tokens).Reads body rest ↔
      ∃ t after, tokens = t :: after ∧
        ((t.kind = .rightBrace ∧ [] = body ∧ after = rest) ∨
          (t.kind ≠ .rightBrace ∧ ∃ ht : t.kind ≠ .eof, ∃ s? middle more,
            (declaration t after ht).toStep.Reads s? middle ∧ (block middle).Reads more rest ∧
              s?.toList ++ more = body)) := by
  refine iff_exists_cons (p := fun tokens => (block tokens).Reads body rest) ?_ ?_
  · rw [block]
    exact not_reads_ranOff
  · intro t after hTokens
    subst hTokens
    rw [block]
    constructor
    · intro hReads
      split at hReads
      · next hBrace =>
        obtain ⟨hNil, hRest, -⟩ := reads_done.mp hReads
        exact .inl ⟨hBrace, hNil, hRest⟩
      · next hBrace =>
        split at hReads
        · exact absurd hReads not_reads_abandon
        · next ht =>
          obtain ⟨s?, middle, hr, hs, hMore⟩ := reads_bind.mp hReads
          obtain ⟨more, hMore, hBody⟩ := reads_map.mp hMore
          exact .inr ⟨hBrace, ht, s?, middle, more, hs, hMore, hBody⟩
    · intro hNext
      rcases hNext with ⟨hBrace, rfl, rfl⟩ | ⟨hBrace, ht, s?, middle, more, hs, hMore, hBody⟩
      · rw [if_pos hBrace]
        exact reads_self
      · rw [if_neg hBrace, dif_neg ht, reads_bind]
        exact ⟨s?, middle, hs.shorter, hs, reads_map.mpr ⟨more, hMore, hBody⟩⟩

-- ---------------------------------------------------------------------------
-- Programs
-- ---------------------------------------------------------------------------

/-- A program that is read to its end of file without a complaint. -/
def Program.Reads (p : Program) (statements : List Stmt) (rest : List Token) : Prop :=
  p.statements = statements ∧ p.reports = [] ∧ p.rest = rest ∧ rest ≠ []

theorem reads_program {statements : List Stmt} :
    (program tokens).Reads statements rest ↔
      ∃ t after, tokens = t :: after ∧
        ((t.kind = .eof ∧ [] = statements ∧ t :: after = rest) ∨
          ∃ ht : t.kind ≠ .eof, ∃ s? middle more,
            (declaration t after ht).toStep.Reads s? middle ∧ (program middle).Reads more rest ∧
              s?.toList ++ more = statements) := by
  refine iff_exists_cons (p := fun tokens => (program tokens).Reads statements rest) ?_ ?_
  · rw [program]
    intro hReads
    obtain ⟨-, -, hRest, hNil⟩ := hReads
    exact hNil hRest.symm
  · intro t after hTokens
    subst hTokens
    rw [program]
    constructor
    · intro hReads
      obtain ⟨hStatements, hReports, hRest, hNil⟩ := hReads
      split at hStatements
      · next ht =>
        rw [dif_pos ht] at hRest
        exact .inl ⟨ht, hStatements, hRest⟩
      · next ht =>
        rw [dif_neg ht] at hReports hRest
        refine .inr ⟨ht, ?_⟩
        cases hd : declaration t after ht with
        | done s? middle reports hr =>
          rw [hd] at hStatements hReports hRest
          obtain ⟨hFirst, hMore⟩ := List.append_eq_nil_iff.mp hReports
          subst hFirst
          have hTail : (program middle).Reads (program middle).statements rest :=
            ⟨rfl, hMore, hRest, hNil⟩
          exact ⟨s?, middle, _, reads_self, hTail, hStatements⟩
        | ranOff reports =>
          rw [hd] at hRest
          exact absurd hRest.symm hNil
    · intro hNext
      rcases hNext with ⟨ht, rfl, rfl⟩ | ⟨ht, s?, middle, more, hs, hMore, rfl⟩
      · rw [dif_pos ht]
        exact ⟨rfl, rfl, rfl, List.cons_ne_nil _ _⟩
      · rw [dif_neg ht]
        cases hd : declaration t after ht with
        | done s?' middle' reports hr =>
          rw [hd] at hs
          obtain ⟨rfl, rfl, rfl⟩ := reads_done.mp hs
          obtain ⟨rfl, hReports, hRest, hNil⟩ := hMore
          exact ⟨rfl, hReports, hRest, hNil⟩
        | ranOff reports =>
          rw [hd] at hs
          exact absurd hs not_reads_ranOff

end Scriptlet.Parse
