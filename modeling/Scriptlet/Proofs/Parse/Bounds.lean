import Scriptlet.Proofs.Parse.Descent

/-!
# Scriptlet — steps stay in their file

A rule moves forward over tokens none of which ends the file. It gives its
construct up only with a complaint, and it runs off a list only if no token of
the list ends a file. One lemma says for each way of composing steps that these
facts are kept; the rules follow along the descent.

## Results

* `ReadUpTo`                — a suffix in front of which no token ends the file.
* `Step.WithinFile`         — the three facts about a step.
* `withinFile_rule`         — every rule that reads an expression stays in its file.
* `withinFile_statement`, `withinFile_block` — so do the others.
* `withinFile_declaration`  — a declaration too, after recovery.
* `rest_program`            — a program is read up to the first end of file.
-/

namespace Scriptlet.Parse

-- ---------------------------------------------------------------------------
-- Moving forward
-- ---------------------------------------------------------------------------

/-- What is left of a list after tokens were read none of which ends the file. -/
def ReadUpTo (rest tokens : List Token) : Prop :=
  ∃ read, read ++ rest = tokens ∧ ∀ t ∈ read, t.kind ≠ .eof

namespace ReadUpTo

variable {a b c rest tokens : List Token} {t : Token}

theorem refl (tokens : List Token) : ReadUpTo tokens tokens := ⟨[], rfl, by simp⟩

theorem trans (hab : ReadUpTo a b) (hbc : ReadUpTo b c) : ReadUpTo a c := by
  obtain ⟨front, rfl, hFront⟩ := hab
  obtain ⟨earlier, rfl, hEarlier⟩ := hbc
  refine ⟨earlier ++ front, List.append_assoc .., ?_⟩
  intro t ht
  rcases List.mem_append.mp ht with h | h
  · exact hEarlier t h
  · exact hFront t h

/-- A token that does not end the file may be read. -/
theorem tail (ht : t.kind ≠ .eof) (rest : List Token) : ReadUpTo rest (t :: rest) :=
  ⟨[t], rfl, by simpa using ht⟩

/-- What ends no file in what is left ends none in the whole list. -/
theorem no_eof (h : ReadUpTo rest tokens) (hRest : ∀ t ∈ rest, t.kind ≠ .eof) :
    ∀ t ∈ tokens, t.kind ≠ .eof := by
  obtain ⟨read, rfl, hRead⟩ := h
  intro t ht
  rcases List.mem_append.mp ht with h | h
  · exact hRead t h
  · exact hRest t h

end ReadUpTo

-- ---------------------------------------------------------------------------
-- Steps
-- ---------------------------------------------------------------------------

namespace Step

variable {α β : Type} {tokens shorter : List Token}

/--
A step reads no token that ends the file, gives up only with a complaint, and
runs off only where no token ends the file.
-/
def WithinFile : Step α tokens → Prop
  | done _ rest _ _ => ReadUpTo rest tokens
  | abandoned rest reports _ => ReadUpTo rest tokens ∧ reports ≠ []
  | ranOff _ => ∀ t ∈ tokens, t.kind ≠ .eof

theorem withinFile_within {s : Step α shorter} (h : shorter <:+ tokens)
    (hRead : ReadUpTo shorter tokens) (hs : s.WithinFile) : (s.within h).WithinFile := by
  cases s with
  | done v rest reports hr => exact hs.trans hRead
  | abandoned rest reports hr => exact ⟨hs.1.trans hRead, hs.2⟩
  | ranOff reports => exact hRead.no_eof hs

theorem withinFile_prepend {s : Step α tokens} (earlier : List Report) (hs : s.WithinFile) :
    (s.prepend earlier).WithinFile := by
  cases s with
  | done v rest reports hr => exact hs
  | abandoned rest reports hr => exact ⟨hs.1, List.append_ne_nil_of_right_ne_nil _ hs.2⟩
  | ranOff reports => exact hs

theorem withinFile_map {s : Step α tokens} (f : α → β) (hs : s.WithinFile) :
    (s.map f).WithinFile := by
  cases s <;> exact hs

theorem withinFile_andThen {first : Step α tokens}
    {next : (value : α) → (rest : List Token) → Shorter rest tokens → Step β tokens}
    (hFirst : first.WithinFile)
    (hNext : ∀ v rest h, ReadUpTo rest tokens → (next v rest h).WithinFile) :
    (first.andThen next).WithinFile := by
  cases first with
  | done v rest reports hr => exact withinFile_prepend reports (hNext v rest hr hFirst)
  | abandoned rest reports hr => exact hFirst
  | ranOff reports => exact hFirst

theorem withinFile_bind {first : Step α tokens}
    {next : (value : α) → (rest : List Token) → Shorter rest tokens → Step β rest}
    (hFirst : first.WithinFile) (hNext : ∀ v rest h, (next v rest h).WithinFile) :
    (first.bind next).WithinFile :=
  withinFile_andThen hFirst fun v rest h hRead => withinFile_within h.1 hRead (hNext v rest h)

end Step

open Step

/-- Where there is no token, none ends the file. -/
theorem withinFile_nil {α : Type} (reports : List Report) :
    (ranOff reports : Step α []).WithinFile := by
  intro t ht
  cases ht

/-- A step from behind a token that does not end the file. -/
theorem withinFile_behind {α : Type} {t : Token} {rest : List Token} {s : Step α rest}
    (ht : t.kind ≠ .eof) (hs : s.WithinFile) :
    (s.within (List.suffix_cons t rest)).WithinFile := by
  have hTail : ReadUpTo rest (t :: rest) := ReadUpTo.tail ht rest
  exact withinFile_within (List.suffix_cons t rest) hTail hs

theorem withinFile_abandon {α : Type} (complaint : Complaint) (tokens : List Token) :
    (abandon complaint tokens : Step α tokens).WithinFile := by
  cases tokens with
  | nil => exact withinFile_nil []
  | cons t rest => exact ⟨ReadUpTo.refl _, by simp⟩

theorem kind_ne_eof_of_is {t : Token} {kind : TokenKind} (h : t.is kind = true) :
    t.kind ≠ .eof := by
  intro ht
  simp [Token.is, Token.isEof, ht] at h

theorem withinFile_expect (kind : TokenKind) (complaint : Complaint) (tokens : List Token) :
    (expect kind complaint tokens).WithinFile := by
  cases tokens with
  | nil => exact withinFile_nil []
  | cons t rest =>
    rw [expect]
    split
    · next h => exact ReadUpTo.tail (kind_ne_eof_of_is h) rest
    · exact withinFile_abandon complaint (t :: rest)

/-- A step and the token of a kind behind what it reads. -/
theorem withinFile_closed {α β : Type} {tokens : List Token} {first : Step α tokens}
    (hFirst : first.WithinFile) (kind : TokenKind) (complaint : Complaint) (f : α → Token → β) :
    (first.bind fun v rest _ => (expect kind complaint rest).map (f v)).WithinFile := by
  refine withinFile_bind hFirst ?_
  intro v rest h
  have hClose : (expect kind complaint rest).WithinFile := withinFile_expect kind complaint rest
  exact withinFile_map (f v) hClose

-- ---------------------------------------------------------------------------
-- Expressions
-- ---------------------------------------------------------------------------

/-- A token of a kind that the grammar knows does not end the file. -/
theorem kind_ne_eof_of_mem_operators {l : Level} {t : Token}
    (h : l.operators.contains t.kind = true) : t.kind ≠ .eof := by
  intro ht
  rw [ht] at h
  cases l <;> exact absurd h (by decide)

theorem withinFile_chain {tokens : List Token} (l : Level) (left : Expr) (rest : List Token)
    (h : Shorter rest tokens) (hRead : ReadUpTo rest tokens)
    (ih : ∀ after, after.length < rest.length → (operand l after).WithinFile) :
    (chain l left rest h).WithinFile := by
  induction hn : rest.length using Nat.strongRecOn generalizing tokens left rest with
  | ind n step =>
    subst hn
    cases rest with
    | nil =>
      rw [chain]
      exact hRead.no_eof (by simp)
    | cons t after =>
      rw [chain]
      split
      · next hop =>
        have hTail : ReadUpTo after tokens :=
          (ReadUpTo.tail (kind_ne_eof_of_mem_operators hop) after).trans hRead
        refine withinFile_within _ hTail ?_
        refine withinFile_andThen (ih after (by simp)) ?_
        intro right rest hr hRight
        have hLess : rest.length < (t :: after).length := by
          have := hr.2
          simp only [List.length_cons]
          omega
        exact step rest.length hLess _ rest hr hRight
          (fun more hm => ih more (Nat.lt_trans hm hLess)) rfl
      · exact hRead

section

variable {tokens : List Token}

theorem withinFile_assignment (ihLevel : (level .or tokens).WithinFile)
    (ih : ∀ after, after.length < tokens.length → (assignment after).WithinFile) :
    (assignment tokens).WithinFile := by
  rw [assignment]
  refine withinFile_andThen ihLevel ?_
  intro target rest h hRead
  cases rest with
  | nil => exact hRead.no_eof (by simp)
  | cons t after =>
    dsimp only
    split
    · next hEqual =>
      have ht : t.kind ≠ .eof := by simp [hEqual]
      have hTail : ReadUpTo after tokens := (ReadUpTo.tail ht after).trans hRead
      have hValue : (assignment after).WithinFile := ih after h.length_tail_lt
      refine withinFile_within _ hTail (withinFile_andThen hValue ?_)
      intro value rest hr hRest
      -- with a target that cannot be assigned to or with one that can
      split
      · exact hRest
      · exact hRest
    · exact hRead

theorem withinFile_level {l : Level} (ihOperand : (operand l tokens).WithinFile)
    (ih : ∀ after, after.length < tokens.length → (operand l after).WithinFile) :
    (level l tokens).WithinFile := by
  rw [level]
  refine withinFile_andThen ihOperand ?_
  intro left rest h hRead
  refine withinFile_chain l left rest h hRead ?_
  intro after hLess
  exact ih after (Nat.lt_trans hLess h.2)

theorem withinFile_unary (ihPrimary : (primary tokens).WithinFile)
    (ih : ∀ after, after.length < tokens.length → (unary after).WithinFile) :
    (unary tokens).WithinFile := by
  cases tokens with
  | nil =>
    rw [unary]
    exact withinFile_nil []
  | cons t rest =>
    rw [unary]
    split
    · next hKind =>
      have ht : t.kind ≠ .eof := by
        rcases hKind with h | h <;> simp [h]
      have hOperand : (unary rest).WithinFile := ih rest (by simp)
      exact withinFile_behind ht (withinFile_map _ hOperand)
    · exact ihPrimary

theorem withinFile_primary
    (ih : ∀ after, after.length < tokens.length → (expression after).WithinFile) :
    (primary tokens).WithinFile := by
  cases tokens with
  | nil =>
    rw [primary]
    exact withinFile_nil []
  | cons t rest =>
    have hInner : (expression rest).WithinFile := ih rest (by simp)
    rw [primary]
    split
    · next value hLiteral =>
      have ht : t.kind ≠ .eof := by
        intro ht
        simp [literalOf?, ht] at hLiteral
      exact ReadUpTo.tail ht rest
    · split
      · next hKind =>
        have ht : t.kind ≠ .eof := by simp [hKind]
        exact ReadUpTo.tail ht rest
      · split
        · next hKind =>
          have ht : t.kind ≠ .eof := by simp [hKind]
          exact withinFile_behind ht (withinFile_closed hInner ..)
        · split
          · next hKind =>
            have ht : t.kind ≠ .eof := by
              intro ht
              simp [ht, needsLeftOperand] at hKind
            exact withinFile_behind ht (withinFile_prepend _ hInner)
          · exact withinFile_abandon ..

end

/-- Every rule that reads an expression stays in its file. -/
theorem withinFile_rule (rule : Rule) (tokens : List Token) : (rule.run tokens).WithinFile := by
  induction rule, tokens using Rule.induct with
  | expression tokens ih =>
    show (expression tokens).WithinFile
    rw [expression]
    exact ih
  | assignment tokens ihLevel ih => exact withinFile_assignment ihLevel ih
  | level l tokens ihOperand ih => exact withinFile_level ihOperand ih
  | operand l tokens ih =>
    show (operand l tokens).WithinFile
    rw [operand_eq_run_below]
    exact ih
  | unary tokens ihPrimary ih => exact withinFile_unary ihPrimary ih
  | primary tokens ih => exact withinFile_primary ih

theorem withinFile_expression (tokens : List Token) : (expression tokens).WithinFile :=
  withinFile_rule .expression tokens

-- ---------------------------------------------------------------------------
-- Statements without statements inside
-- ---------------------------------------------------------------------------

theorem withinFile_varDeclaration (tokens : List Token) : (varDeclaration tokens).WithinFile := by
  unfold varDeclaration
  refine withinFile_andThen (withinFile_expect ..) ?_
  intro name rest h hRead
  cases rest with
  | nil => exact hRead.no_eof (by simp)
  | cons t after =>
    dsimp only
    split
    · next hEqual =>
      have ht : t.kind ≠ .eof := by simp [hEqual]
      have hTail : ReadUpTo after tokens := (ReadUpTo.tail ht after).trans hRead
      have hValue : (expression after).WithinFile := withinFile_expression after
      exact withinFile_within _ hTail (withinFile_closed hValue ..)
    · exact withinFile_within _ hRead (withinFile_map _ (withinFile_expect ..))

theorem withinFile_expressionStatement (tokens : List Token) :
    (expressionStatement tokens).WithinFile :=
  withinFile_closed (withinFile_expression tokens) ..

theorem withinFile_printStatement (tokens : List Token) : (printStatement tokens).WithinFile :=
  withinFile_closed (withinFile_expression tokens) ..

theorem withinFile_condition (noParen openParen : Complaint) (tokens : List Token) :
    (condition noParen openParen tokens).WithinFile := by
  refine withinFile_bind (withinFile_expect ..) ?_
  intro paren rest h
  exact withinFile_closed (withinFile_expression rest) ..

theorem withinFile_forInitializer (tokens : List Token) :
    (forInitializer tokens).WithinFile := by
  cases tokens with
  | nil => exact withinFile_nil []
  | cons t rest =>
    rw [forInitializer]
    split
    · next hKind =>
      have ht : t.kind ≠ .eof := by simp [hKind]
      exact ReadUpTo.tail ht rest
    · split
      · next hKind =>
        have ht : t.kind ≠ .eof := by simp [hKind]
        have hDeclaration : (varDeclaration rest).WithinFile := withinFile_varDeclaration rest
        exact withinFile_behind ht (withinFile_map _ hDeclaration)
      · exact withinFile_map _ (withinFile_expressionStatement (t :: rest))

theorem withinFile_forClause {close : TokenKind} (hClose : close ≠ .eof) (complaint : Complaint)
    (tokens : List Token) : (forClause close complaint tokens).WithinFile := by
  cases tokens with
  | nil => exact withinFile_nil []
  | cons t rest =>
    rw [forClause]
    split
    · next hKind =>
      have ht : t.kind ≠ .eof := by rwa [hKind]
      exact ReadUpTo.tail ht rest
    · exact withinFile_closed (withinFile_expression (t :: rest)) ..

theorem withinFile_forHead (tokens : List Token) : (forHead tokens).WithinFile := by
  refine withinFile_bind (withinFile_expect ..) ?_
  intro paren rest h
  refine withinFile_bind (withinFile_forInitializer rest) ?_
  intro initializer rest h
  refine withinFile_bind (withinFile_forClause (by decide) _ rest) ?_
  intro condition rest h
  exact withinFile_map _ (withinFile_forClause (by decide) _ rest)

-- ---------------------------------------------------------------------------
-- Recovery
-- ---------------------------------------------------------------------------

theorem readUpTo_of_skipFrom {last : Token} {tokens rest : List Token}
    (h : skipFrom last tokens = some rest) : ReadUpTo rest tokens := by
  induction tokens generalizing last with
  | nil => simp [skipFrom] at h
  | cons t tail ih =>
    rw [skipFrom] at h
    split at h
    · cases h
      exact ReadUpTo.refl _
    · next hStop =>
      have ht : t.kind ≠ .eof := fun ht => hStop (.inl ht)
      exact (ih h).trans (ReadUpTo.tail ht tail)

theorem no_eof_of_skipFrom {last : Token} {tokens : List Token}
    (h : skipFrom last tokens = none) : ∀ t ∈ tokens, t.kind ≠ .eof := by
  induction tokens generalizing last with
  | nil => simp
  | cons t tail ih =>
    rw [skipFrom] at h
    split at h
    · simp at h
    · next hStop =>
      have ht : t.kind ≠ .eof := fun ht => hStop (.inl ht)
      exact (ReadUpTo.tail ht tail).no_eof (ih h)

/-- Recovery skips no token that ends the file. -/
theorem readUpTo_of_synchronize {tokens rest : List Token} (h : synchronize tokens = some rest) :
    ReadUpTo rest tokens := by
  cases tokens with
  | nil => simp [synchronize] at h
  | cons t tail =>
    rw [synchronize] at h
    split at h
    · cases h
      exact ReadUpTo.refl _
    · next ht => exact (readUpTo_of_skipFrom h).trans (ReadUpTo.tail ht tail)

/-- Recovery finds a place to go on from wherever a token ends the file. -/
theorem no_eof_of_synchronize {tokens : List Token} (h : synchronize tokens = none) :
    ∀ t ∈ tokens, t.kind ≠ .eof := by
  cases tokens with
  | nil => simp
  | cons t tail =>
    rw [synchronize] at h
    split at h
    · simp at h
    · next ht => exact (ReadUpTo.tail ht tail).no_eof (no_eof_of_skipFrom h)

theorem withinFile_recover {t : Token} {tail : List Token} (ht : t.kind ≠ .eof)
    {s : Step Stmt (t :: tail)} (hs : s.WithinFile) : (recover ht s).toStep.WithinFile := by
  cases s with
  | done v rest reports hr => exact hs
  | ranOff reports => exact hs
  | abandoned rest reports hr =>
    rw [recover]
    split
    · next hNone => exact hs.1.no_eof (no_eof_of_synchronize hNone)
    · next after hSome => exact (readUpTo_of_synchronize hSome).trans hs.1

-- ---------------------------------------------------------------------------
-- Statements
-- ---------------------------------------------------------------------------

section

variable {tokens : List Token}

theorem withinFile_ifStatement
    (ih : ∀ after, after.length < tokens.length → (statement after).WithinFile) :
    (ifStatement tokens).WithinFile := by
  rw [ifStatement]
  refine withinFile_bind (withinFile_condition ..) ?_
  intro e rest hCondition
  refine withinFile_andThen (ih rest hCondition.2) ?_
  intro thenBranch after h hRead
  cases after with
  | nil => exact hRead.no_eof (by simp)
  | cons t after =>
    dsimp only
    split
    · next hElse =>
      have ht : t.kind ≠ .eof := by simp [hElse]
      have hTail : ReadUpTo after rest := (ReadUpTo.tail ht after).trans hRead
      have hLess : after.length < tokens.length := Nat.lt_trans h.length_tail_lt hCondition.2
      have hElseBranch : (statement after).WithinFile := ih after hLess
      exact withinFile_within _ hTail (withinFile_map _ hElseBranch)
    · exact hRead

theorem withinFile_whileStatement
    (ih : ∀ after, after.length < tokens.length → (statement after).WithinFile) :
    (whileStatement tokens).WithinFile := by
  unfold whileStatement
  refine withinFile_bind (withinFile_condition ..) ?_
  intro e rest h
  have hBody : (statement rest).WithinFile := ih rest h.2
  exact withinFile_map _ hBody

theorem withinFile_forStatement
    (ih : ∀ after, after.length < tokens.length → (statement after).WithinFile) :
    (forStatement tokens).WithinFile := by
  unfold forStatement
  refine withinFile_bind (withinFile_forHead tokens) ?_
  intro head rest h
  have hBody : (statement rest).WithinFile := ih rest h.2
  exact withinFile_map _ hBody

theorem withinFile_declaration_of_statement {t : Token} {tail : List Token} (ht : t.kind ≠ .eof)
    (h : (statement (t :: tail)).WithinFile) : (declaration t tail ht).toStep.WithinFile := by
  unfold declaration
  split
  · have hDeclaration : (varDeclaration tail).WithinFile := withinFile_varDeclaration tail
    exact withinFile_recover ht (withinFile_behind ht hDeclaration)
  · exact withinFile_recover ht h

end

theorem withinFile_statement_and_block :
    ∀ tokens, (statement tokens).WithinFile ∧ (block tokens).WithinFile := by
  apply statement_induct
  case statement =>
    intro tokens ihStatement ihBlock
    cases tokens with
    | nil =>
      rw [statement]
      exact withinFile_nil []
    | cons t rest =>
      have ih : ∀ after, after.length < rest.length → (statement after).WithinFile := by
        intro after h
        have hLess : after.length < (t :: rest).length := by
          simp only [List.length_cons]
          omega
        exact ihStatement after hLess
      have hBlock : (block rest).WithinFile := ihBlock rest (by simp)
      rw [statement]
      split
      · next h => exact withinFile_behind (by simp [h]) (withinFile_forStatement ih)
      · next h => exact withinFile_behind (by simp [h]) (withinFile_ifStatement ih)
      · next h => exact withinFile_behind (by simp [h]) (withinFile_printStatement rest)
      · next h => exact withinFile_behind (by simp [h]) (withinFile_whileStatement ih)
      · next h => exact withinFile_behind (by simp [h]) (withinFile_map _ hBlock)
      · exact withinFile_expressionStatement (t :: rest)
  case block =>
    intro tokens ihStatement ihBlock
    cases tokens with
    | nil =>
      rw [block]
      exact withinFile_nil []
    | cons t rest =>
      rw [block]
      split
      · next h =>
        have ht : t.kind ≠ .eof := by simp [h]
        exact ReadUpTo.tail ht rest
      · split
        · exact withinFile_abandon ..
        · next ht =>
          refine withinFile_bind (withinFile_declaration_of_statement ht ihStatement) ?_
          intro s? rest h
          have hMore : (block rest).WithinFile := ihBlock rest h.2
          exact withinFile_map _ hMore

theorem withinFile_statement (tokens : List Token) : (statement tokens).WithinFile :=
  (withinFile_statement_and_block tokens).1

theorem withinFile_block (tokens : List Token) : (block tokens).WithinFile :=
  (withinFile_statement_and_block tokens).2

/-- A declaration stays in its file, also where it was dropped. -/
theorem withinFile_declaration {t : Token} {tail : List Token} (ht : t.kind ≠ .eof) :
    (declaration t tail ht).toStep.WithinFile :=
  withinFile_declaration_of_statement ht (withinFile_statement (t :: tail))

-- ---------------------------------------------------------------------------
-- Programs
-- ---------------------------------------------------------------------------

/-- The tokens from the first one on that ends the file; none if there is no such token. -/
def fromEof (tokens : List Token) : List Token := tokens.dropWhile (·.kind != .eof)

theorem fromEof_of_readUpTo {rest tokens : List Token} (h : ReadUpTo rest tokens) :
    fromEof tokens = fromEof rest := by
  obtain ⟨read, rfl, hRead⟩ := h
  exact List.dropWhile_append_of_pos (by simpa using hRead)

theorem fromEof_of_no_eof {tokens : List Token} (h : ∀ t ∈ tokens, t.kind ≠ .eof) :
    fromEof tokens = [] :=
  fromEof_of_readUpTo (⟨tokens, List.append_nil _, h⟩ : ReadUpTo [] tokens)

theorem fromEof_ne_nil {tokens : List Token} {eof : Token} (hMem : eof ∈ tokens)
    (hEof : eof.kind = .eof) : fromEof tokens ≠ [] := by
  induction tokens with
  | nil => cases hMem
  | cons t rest ih =>
    by_cases ht : t.kind = .eof
    · simp [fromEof, ht]
    · have hRest : eof ∈ rest := by
        rcases List.mem_cons.mp hMem with hEq | hRest
        · rw [hEq] at hEof
          exact absurd hEof ht
        · exact hRest
      have hTail := fromEof_of_readUpTo (ReadUpTo.tail ht rest)
      rw [hTail]
      exact ih hRest

/-- A program is read up to the first token that ends the file. -/
theorem rest_program (tokens : List Token) : (program tokens).rest = fromEof tokens := by
  induction tokens using program.induct with
  | case1 =>
    rw [program]
    rfl
  | case2 t tail ht =>
    rw [program, dif_pos ht]
    simp [fromEof, ht]
  | case3 t tail ht s? rest reports hr hDone ih =>
    have hWithin := @withinFile_declaration t tail ht
    rw [hDone] at hWithin
    rw [program, dif_neg ht, hDone]
    exact ih.trans (fromEof_of_readUpTo hWithin).symm
  | case4 t tail ht reports hRanOff =>
    have hWithin := @withinFile_declaration t tail ht
    rw [hRanOff] at hWithin
    rw [program, dif_neg ht, hRanOff]
    exact (fromEof_of_no_eof hWithin).symm

end Scriptlet.Parse
