import Scriptlet.Proofs.Parse.Descent

/-!
# Scriptlet — what complaints are about

A rule complains about tokens that it has read, or about the next one where it
gives its construct up, and about nothing in front of where it started or behind
where it stopped. Every complaint keeps its place, and its wording is its own:
nothing of the source text is part of it.

## Results

* `Report.AboutRead`, `Report.AboutMet` — where a complaint stands.
* `Step.Complains`          — a step whose complaints all stand there.
* `complains_rule`          — every rule that reads an expression.
* `complains_statement_and_block` — a statement, and the statements of a block.
* `complains_declaration`   — a declaration too, after recovery.
* `at_of_mem_reports_program` — the complaints about a file.
-/

namespace Scriptlet

/-- Whether the wording of a complaint is all its own. -/
def Complaint.isFixed : Complaint → Bool
  | unexpectedCharacter _ => false
  | missing _ => false
  | _ => true

namespace Parse

-- ---------------------------------------------------------------------------
-- Places
-- ---------------------------------------------------------------------------

namespace Report

variable {file whole rest later : List Token} {r : Report}

/-- A complaint about the token in front of `after`, in its own words. -/
structure At (r : Report) (after file : List Token) : Prop where
  token : r.token :: after <:+ file
  left : r.left = after.length + 1
  fixed : r.complaint.isFixed = true

/-- About a token of the file that was read in front of `rest`. -/
def AboutRead (file rest : List Token) (r : Report) : Prop :=
  ∃ after, r.At after file ∧ rest <:+ after

/-- About a token of the file that was read in front of `rest`, or about the next one. -/
def AboutMet (file rest : List Token) (r : Report) : Prop :=
  ∃ after, r.At after file ∧ rest <:+ r.token :: after

theorem At.mono {after : List Token} (h : r.At after file) (hFile : file <:+ whole) :
    r.At after whole :=
  { h with token := h.token.trans hFile }

theorem at_report {t : Token} {after : List Token} {complaint : Complaint}
    (hFixed : complaint.isFixed = true) (h : t :: after <:+ file) :
    (report t after complaint).At after file :=
  ⟨h, rfl, hFixed⟩

theorem AboutRead.mono (h : r.AboutRead file rest) (hFile : file <:+ whole)
    (hRest : later <:+ rest) : r.AboutRead whole later := by
  obtain ⟨after, hAt, hAfter⟩ := h
  exact ⟨after, hAt.mono hFile, hRest.trans hAfter⟩

theorem AboutMet.mono (h : r.AboutMet file rest) (hFile : file <:+ whole)
    (hRest : later <:+ rest) : r.AboutMet whole later := by
  obtain ⟨after, hAt, hAfter⟩ := h
  exact ⟨after, hAt.mono hFile, hRest.trans hAfter⟩

theorem AboutRead.met (h : r.AboutRead file rest) : r.AboutMet file rest := by
  obtain ⟨after, hAt, hAfter⟩ := h
  exact ⟨after, hAt, hAfter.trans (List.suffix_cons r.token after)⟩

/-- Once a token more was read, the next one is among those that were. -/
theorem AboutMet.read (h : r.AboutMet file rest) (hRest : Shorter later rest) :
    r.AboutRead file later := by
  obtain ⟨after, hAt, hAfter⟩ := h
  rcases List.suffix_cons_iff.mp (hRest.1.trans hAfter) with hWhole | hBehind
  · -- the whole of it would be as long as what is longer than it
    have hLess := Nat.lt_of_lt_of_le hRest.2 hAfter.length_le
    rw [hWhole] at hLess
    exact absurd hLess (Nat.lt_irrefl _)
  · exact ⟨after, hAt, hBehind⟩

end Report

-- ---------------------------------------------------------------------------
-- Steps
-- ---------------------------------------------------------------------------

namespace Step

variable {α β : Type} {tokens part file whole start earlier : List Token}

/-- A step that goes on from `start`, with complaints about what of the file was read or met. -/
def Complains (file start : List Token) : Step α tokens → Prop
  | done _ rest reports _ => rest <:+ start ∧ ∀ r ∈ reports, r.AboutRead file rest
  | abandoned rest reports _ => rest <:+ start ∧ ∀ r ∈ reports, r.AboutMet file rest
  | ranOff reports => ∀ r ∈ reports, r.AboutRead file []

theorem complains_mono {s : Step α tokens} (h : s.Complains file start) (hFile : file <:+ whole)
    (hStart : start <:+ earlier) : s.Complains whole earlier := by
  cases s with
  | done v rest reports hr =>
    exact ⟨h.1.trans hStart, fun r hMem => (h.2 r hMem).mono hFile List.suffix_rfl⟩
  | abandoned rest reports hr =>
    exact ⟨h.1.trans hStart, fun r hMem => (h.2 r hMem).mono hFile List.suffix_rfl⟩
  | ranOff reports => exact fun r hMem => (h r hMem).mono hFile List.suffix_rfl

theorem complains_within {s : Step α part} (h : part <:+ tokens) (hs : s.Complains file start) :
    (s.within h).Complains file start := by
  cases s <;> exact hs

theorem complains_map {s : Step α tokens} (f : α → β) (hs : s.Complains file start) :
    (s.map f).Complains file start := by
  cases s <;> exact hs

/-- With complaints about tokens that were read before the step went on. -/
theorem complains_prepend {s : Step α tokens} {reports : List Report}
    (hReports : ∀ r ∈ reports, r.AboutRead file start) (hs : s.Complains file start) :
    (s.prepend reports).Complains file start := by
  cases s with
  | done v rest later hr =>
    refine ⟨hs.1, fun r hMem => ?_⟩
    rcases List.mem_append.mp hMem with hEarlier | hLater
    · exact (hReports r hEarlier).mono List.suffix_rfl hs.1
    · exact hs.2 r hLater
  | abandoned rest later hr =>
    refine ⟨hs.1, fun r hMem => ?_⟩
    rcases List.mem_append.mp hMem with hEarlier | hLater
    · exact ((hReports r hEarlier).mono List.suffix_rfl hs.1).met
    · exact hs.2 r hLater
  | ranOff later =>
    intro r hMem
    rcases List.mem_append.mp hMem with hEarlier | hLater
    · exact (hReports r hEarlier).mono List.suffix_rfl List.nil_suffix
    · exact hs r hLater

theorem complains_andThen {first : Step α tokens}
    {next : (value : α) → (rest : List Token) → Shorter rest tokens → Step β tokens}
    (hFirst : first.Complains file start)
    (hNext : ∀ v rest h, rest <:+ start → (next v rest h).Complains file rest) :
    (first.andThen next).Complains file start := by
  cases first with
  | done v rest reports hr =>
    have hRest := complains_prepend hFirst.2 (hNext v rest hr hFirst.1)
    exact complains_mono hRest List.suffix_rfl hFirst.1
  | abandoned rest reports hr => exact hFirst
  | ranOff reports => exact hFirst

theorem complains_bind {first : Step α tokens}
    {next : (value : α) → (rest : List Token) → Shorter rest tokens → Step β rest}
    (hFirst : first.Complains tokens start)
    (hNext : ∀ v rest h, (next v rest h).Complains rest rest) :
    (first.bind next).Complains tokens start :=
  complains_andThen hFirst fun v rest h _ =>
    complains_within h.1 (complains_mono (hNext v rest h) h.1 List.suffix_rfl)

/-- A step without complaints. -/
theorem complains_done {v : α} {rest : List Token} {h : Shorter rest tokens}
    (hRest : rest <:+ start) : (done v rest [] h).Complains file start :=
  ⟨hRest, fun _ hMem => absurd hMem List.not_mem_nil⟩

theorem complains_ranOff : (ranOff [] : Step α tokens).Complains file start :=
  fun _ hMem => absurd hMem List.not_mem_nil

end Step

open Step

/-- A step from behind the next token. -/
theorem complains_behind {α : Type} {t : Token} {rest : List Token} {s : Step α rest}
    (hs : s.Complains rest rest) :
    (s.within (List.suffix_cons t rest)).Complains (t :: rest) (t :: rest) :=
  complains_within _ (complains_mono hs (List.suffix_cons t rest) (List.suffix_cons t rest))

theorem complains_abandon {α : Type} {complaint : Complaint} (hFixed : complaint.isFixed = true)
    (tokens : List Token) : (abandon complaint tokens : Step α tokens).Complains tokens tokens := by
  cases tokens with
  | nil => exact complains_ranOff
  | cons t rest =>
    refine ⟨List.suffix_rfl, fun r hMem => ?_⟩
    rw [List.mem_singleton.mp hMem]
    exact ⟨rest, Report.at_report hFixed List.suffix_rfl, List.suffix_rfl⟩

theorem complains_expect (kind : TokenKind) {complaint : Complaint}
    (hFixed : complaint.isFixed = true) (tokens : List Token) :
    (expect kind complaint tokens).Complains tokens tokens := by
  cases tokens with
  | nil => exact complains_ranOff
  | cons t rest =>
    rw [expect]
    split
    · exact complains_done (List.suffix_cons t rest)
    · exact complains_abandon hFixed (t :: rest)

/-- A step and the token of a kind behind what it reads. -/
theorem complains_closed {α β : Type} {tokens : List Token} {first : Step α tokens}
    (hFirst : first.Complains tokens tokens) (kind : TokenKind) {complaint : Complaint}
    (hFixed : complaint.isFixed = true) (f : α → Token → β) :
    (first.bind fun v rest _ => (expect kind complaint rest).map (f v)).Complains tokens
      tokens := by
  refine complains_bind hFirst ?_
  intro v rest h
  exact complains_map (f v) (complains_expect kind hFixed rest)

-- ---------------------------------------------------------------------------
-- Expressions
-- ---------------------------------------------------------------------------

theorem complains_chain {tokens : List Token} (l : Level) (left : Expr) (rest : List Token)
    (h : Shorter rest tokens)
    (ih : ∀ after, after.length < rest.length → (operand l after).Complains after after) :
    (chain l left rest h).Complains rest rest := by
  induction hn : rest.length using Nat.strongRecOn generalizing tokens left rest with
  | ind n step =>
    subst hn
    cases rest with
    | nil =>
      rw [chain]
      exact complains_ranOff
    | cons t after =>
      rw [chain]
      split
      · have hAfter : after <:+ t :: after := List.suffix_cons t after
        refine complains_within _ (complains_mono ?_ hAfter hAfter)
        refine complains_andThen (ih after (by simp)) ?_
        intro right rest hr hRest
        have hLess : rest.length < (t :: after).length := Nat.lt_succ_of_lt hr.2
        have hMore := step rest.length hLess (l.node left t right) rest hr
          (fun more hm => ih more (Nat.lt_trans hm hLess)) rfl
        exact complains_mono hMore hRest List.suffix_rfl
      · exact complains_done List.suffix_rfl

section

variable {tokens : List Token}

theorem complains_assignment (ihLevel : (level .or tokens).Complains tokens tokens)
    (ih : ∀ after, after.length < tokens.length → (assignment after).Complains after after) :
    (assignment tokens).Complains tokens tokens := by
  rw [assignment]
  refine complains_andThen ihLevel ?_
  intro target rest h hRest
  cases rest with
  | nil => exact complains_ranOff
  | cons t after =>
    dsimp only
    split
    · have hAfter : after <:+ t :: after := List.suffix_cons t after
      have hValue := complains_mono (ih after h.length_tail_lt) (hAfter.trans hRest) hAfter
      refine complains_within _ (complains_andThen hValue ?_)
      intro value rest hr _
      split
      · exact complains_done List.suffix_rfl
      · -- the complaint stands at the equals sign, which was read before the value
        refine ⟨List.suffix_rfl, fun r hMem => ?_⟩
        rw [List.mem_singleton.mp hMem]
        exact ⟨after, Report.at_report rfl hRest, hr.1⟩
    · exact complains_done List.suffix_rfl

theorem complains_level {l : Level} (ihOperand : (operand l tokens).Complains tokens tokens)
    (ih : ∀ after, after.length < tokens.length → (operand l after).Complains after after) :
    (level l tokens).Complains tokens tokens := by
  rw [level]
  refine complains_andThen ihOperand ?_
  intro left rest h hRest
  have hChain := complains_chain l left rest h fun after hLess => ih after (Nat.lt_trans hLess h.2)
  exact complains_mono hChain hRest List.suffix_rfl

theorem complains_unary (ihPrimary : (primary tokens).Complains tokens tokens)
    (ih : ∀ after, after.length < tokens.length → (unary after).Complains after after) :
    (unary tokens).Complains tokens tokens := by
  cases tokens with
  | nil =>
    rw [unary]
    exact complains_ranOff
  | cons t rest =>
    rw [unary]
    split
    · exact complains_behind (complains_map _ (ih rest (by simp)))
    · exact ihPrimary

theorem complains_primary
    (ih : ∀ after, after.length < tokens.length → (expression after).Complains after after) :
    (primary tokens).Complains tokens tokens := by
  cases tokens with
  | nil =>
    rw [primary]
    exact complains_ranOff
  | cons t rest =>
    have hInner : (expression rest).Complains rest rest := ih rest (by simp)
    rw [primary]
    split
    · exact complains_done (List.suffix_cons t rest)
    · split
      · exact complains_done (List.suffix_cons t rest)
      · split
        · exact complains_behind (complains_closed hInner _ rfl _)
        · split
          · -- the operator without a left operand was read before its right one
            have hRest : rest <:+ t :: rest := List.suffix_cons t rest
            have hOperator : ∀ r ∈ [report t rest .noLeftOperand],
                r.AboutRead (t :: rest) rest := by
              intro r hMem
              rw [List.mem_singleton.mp hMem]
              exact ⟨rest, Report.at_report rfl List.suffix_rfl, List.suffix_rfl⟩
            have hLater := complains_mono hInner hRest List.suffix_rfl
            exact complains_within _
              (complains_mono (complains_prepend hOperator hLater) List.suffix_rfl hRest)
          · exact complains_abandon rfl (t :: rest)

end

/-- Every rule that reads an expression. -/
theorem complains_rule (rule : Rule) (tokens : List Token) :
    (rule.run tokens).Complains tokens tokens := by
  induction rule, tokens using Rule.induct with
  | expression tokens ih =>
    show (expression tokens).Complains tokens tokens
    rw [expression]
    exact ih
  | assignment tokens ihLevel ih => exact complains_assignment ihLevel ih
  | level l tokens ihOperand ih => exact complains_level ihOperand ih
  | operand l tokens ih =>
    show (operand l tokens).Complains tokens tokens
    rw [operand_eq_run_below]
    exact ih
  | unary tokens ihPrimary ih => exact complains_unary ihPrimary ih
  | primary tokens ih => exact complains_primary ih

theorem complains_expression (tokens : List Token) :
    (expression tokens).Complains tokens tokens :=
  complains_rule .expression tokens

-- ---------------------------------------------------------------------------
-- Statements without statements inside
-- ---------------------------------------------------------------------------

theorem complains_varDeclaration (tokens : List Token) :
    (varDeclaration tokens).Complains tokens tokens := by
  unfold varDeclaration
  refine complains_andThen (complains_expect _ rfl tokens) ?_
  intro name rest h hRest
  cases rest with
  | nil => exact complains_ranOff
  | cons t after =>
    have hAfter : after <:+ t :: after := List.suffix_cons t after
    dsimp only
    split
    · have hValue := complains_closed (complains_expression after) .semicolon
        (rfl : Complaint.openDeclaration.isFixed = true) fun e _ => Stmt.varDecl name (some e)
      exact complains_within _ (complains_mono hValue (hAfter.trans hRest) hAfter)
    · have hEnd := complains_expect .semicolon (rfl : Complaint.openDeclaration.isFixed = true)
        (t :: after)
      exact complains_within _ (complains_mono (complains_map _ hEnd) hRest List.suffix_rfl)

theorem complains_expressionStatement (tokens : List Token) :
    (expressionStatement tokens).Complains tokens tokens :=
  complains_closed (complains_expression tokens) _ rfl _

theorem complains_printStatement (tokens : List Token) :
    (printStatement tokens).Complains tokens tokens :=
  complains_closed (complains_expression tokens) _ rfl _

theorem complains_condition {noParen openParen : Complaint} (hNone : noParen.isFixed = true)
    (hOpen : openParen.isFixed = true) (tokens : List Token) :
    (condition noParen openParen tokens).Complains tokens tokens := by
  refine complains_bind (complains_expect _ hNone tokens) ?_
  intro paren rest h
  exact complains_closed (complains_expression rest) _ hOpen _

theorem complains_forInitializer (tokens : List Token) :
    (forInitializer tokens).Complains tokens tokens := by
  cases tokens with
  | nil => exact complains_ranOff
  | cons t rest =>
    rw [forInitializer]
    split
    · exact complains_done (List.suffix_cons t rest)
    · split
      · exact complains_behind (complains_map _ (complains_varDeclaration rest))
      · exact complains_map _ (complains_expressionStatement (t :: rest))

theorem complains_forClause (close : TokenKind) {complaint : Complaint}
    (hFixed : complaint.isFixed = true) (tokens : List Token) :
    (forClause close complaint tokens).Complains tokens tokens := by
  cases tokens with
  | nil => exact complains_ranOff
  | cons t rest =>
    rw [forClause]
    split
    · exact complains_done (List.suffix_cons t rest)
    · exact complains_closed (complains_expression (t :: rest)) _ hFixed _

theorem complains_forHead (tokens : List Token) : (forHead tokens).Complains tokens tokens := by
  refine complains_bind (complains_expect _ rfl tokens) ?_
  intro paren rest h
  refine complains_bind (complains_forInitializer rest) ?_
  intro initializer rest h
  refine complains_bind (complains_forClause _ rfl rest) ?_
  intro condition rest h
  exact complains_map _ (complains_forClause _ rfl rest)

-- ---------------------------------------------------------------------------
-- Recovery
-- ---------------------------------------------------------------------------

/--
A declaration, which may complain about the next token even where it is done: at
the end of the file recovery does not move.
-/
def Declared.Complains {tokens : List Token} (start : List Token) : Declared tokens → Prop
  | done _ rest reports _ => rest <:+ start ∧ ∀ r ∈ reports, r.AboutMet start rest
  | ranOff reports => ∀ r ∈ reports, r.AboutRead start []

theorem complains_recover {t : Token} {tail : List Token} (ht : t.kind ≠ .eof)
    {s : Step Stmt (t :: tail)} (hs : s.Complains (t :: tail) (t :: tail)) :
    (recover ht s).Complains (t :: tail) := by
  cases s with
  | done v rest reports hr => exact ⟨hs.1, fun r hMem => (hs.2 r hMem).met⟩
  | ranOff reports => exact hs
  | abandoned rest reports hr =>
    rw [recover]
    split
    · intro r hMem
      obtain ⟨after, hAt, -⟩ := hs.2 r hMem
      exact ⟨after, hAt, List.nil_suffix⟩
    · next after hSome =>
      have hAfter := suffix_of_synchronize hSome
      exact ⟨hAfter.trans hs.1, fun r hMem => (hs.2 r hMem).mono List.suffix_rfl hAfter⟩

/-- What follows a declaration reads another token before it is done. -/
theorem complains_behind_declared {α : Type} {tokens : List Token} {d : Declared tokens}
    {next : (value : Option Stmt) → (rest : List Token) → Shorter rest tokens → Step α rest}
    (hFirst : d.Complains tokens) (hNext : ∀ v rest h, (next v rest h).Complains rest rest) :
    (d.toStep.bind next).Complains tokens tokens := by
  cases d with
  | ranOff reports => exact hFirst
  | done s? rest reports hr =>
    have hRest := hNext s? rest hr
    show (((next s? rest hr).within hr.1).prepend reports).Complains tokens tokens
    cases hStep : next s? rest hr with
    | done v last later hLast =>
      rw [hStep] at hRest
      refine ⟨hRest.1.trans hFirst.1, fun r hMem => ?_⟩
      rcases List.mem_append.mp hMem with hEarlier | hLater
      · exact (hFirst.2 r hEarlier).read hLast
      · exact (hRest.2 r hLater).mono hr.1 List.suffix_rfl
    | abandoned last later hLast =>
      rw [hStep] at hRest
      refine ⟨hRest.1.trans hFirst.1, fun r hMem => ?_⟩
      rcases List.mem_append.mp hMem with hEarlier | hLater
      · exact (hFirst.2 r hEarlier).mono List.suffix_rfl hRest.1
      · exact (hRest.2 r hLater).mono hr.1 List.suffix_rfl
    | ranOff later =>
      rw [hStep] at hRest
      intro r hMem
      rcases List.mem_append.mp hMem with hEarlier | hLater
      · obtain ⟨after, hAt, -⟩ := hFirst.2 r hEarlier
        exact ⟨after, hAt, List.nil_suffix⟩
      · exact (hRest r hLater).mono hr.1 List.suffix_rfl

-- ---------------------------------------------------------------------------
-- Statements
-- ---------------------------------------------------------------------------

section

variable {tokens : List Token}

theorem complains_ifStatement
    (ih : ∀ after, after.length < tokens.length → (statement after).Complains after after) :
    (ifStatement tokens).Complains tokens tokens := by
  rw [ifStatement]
  refine complains_bind (complains_condition rfl rfl tokens) ?_
  intro e rest hCondition
  refine complains_andThen (ih rest hCondition.2) ?_
  intro thenBranch after h hRest
  cases after with
  | nil => exact complains_ranOff
  | cons t after =>
    have hAfter : after <:+ t :: after := List.suffix_cons t after
    dsimp only
    split
    · have hLess : after.length < tokens.length := Nat.lt_trans h.length_tail_lt hCondition.2
      exact complains_within _
        (complains_mono (complains_map _ (ih after hLess)) (hAfter.trans hRest) hAfter)
    · exact complains_done List.suffix_rfl

theorem complains_whileStatement
    (ih : ∀ after, after.length < tokens.length → (statement after).Complains after after) :
    (whileStatement tokens).Complains tokens tokens := by
  unfold whileStatement
  refine complains_bind (complains_condition rfl rfl tokens) ?_
  intro e rest h
  exact complains_map _ (ih rest h.2)

theorem complains_forStatement
    (ih : ∀ after, after.length < tokens.length → (statement after).Complains after after) :
    (forStatement tokens).Complains tokens tokens := by
  unfold forStatement
  refine complains_bind (complains_forHead tokens) ?_
  intro head rest h
  exact complains_map _ (ih rest h.2)

theorem complains_declaration_of_statement {t : Token} {tail : List Token} (ht : t.kind ≠ .eof)
    (h : (statement (t :: tail)).Complains (t :: tail) (t :: tail)) :
    (declaration t tail ht).Complains (t :: tail) := by
  unfold declaration
  split
  · exact complains_recover ht (complains_behind (complains_varDeclaration tail))
  · exact complains_recover ht h

end

theorem complains_statement_and_block : ∀ tokens,
    (statement tokens).Complains tokens tokens ∧ (block tokens).Complains tokens tokens := by
  apply statement_induct
  case statement =>
    intro tokens ihStatement ihBlock
    cases tokens with
    | nil =>
      rw [statement]
      exact complains_ranOff
    | cons t rest =>
      have ih : ∀ after, after.length < rest.length → (statement after).Complains after after :=
        fun after h => ihStatement after (Nat.lt_succ_of_lt h)
      rw [statement]
      split
      · exact complains_behind (complains_forStatement ih)
      · exact complains_behind (complains_ifStatement ih)
      · exact complains_behind (complains_printStatement rest)
      · exact complains_behind (complains_whileStatement ih)
      · exact complains_behind (complains_map _ (ihBlock rest (by simp)))
      · exact complains_expressionStatement (t :: rest)
  case block =>
    intro tokens ihStatement ihBlock
    cases tokens with
    | nil =>
      rw [block]
      exact complains_ranOff
    | cons t rest =>
      rw [block]
      split
      · exact complains_done (List.suffix_cons t rest)
      · split
        · exact complains_abandon rfl (t :: rest)
        · next ht =>
          refine complains_behind_declared (complains_declaration_of_statement ht ihStatement) ?_
          intro s? rest h
          exact complains_map _ (ihBlock rest h.2)

theorem complains_statement (tokens : List Token) : (statement tokens).Complains tokens tokens :=
  (complains_statement_and_block tokens).1

/-- A declaration, whether it was dropped or not. -/
theorem complains_declaration {t : Token} {tail : List Token} (ht : t.kind ≠ .eof) :
    (declaration t tail ht).Complains (t :: tail) :=
  complains_declaration_of_statement ht (complains_statement (t :: tail))

-- ---------------------------------------------------------------------------
-- Programs
-- ---------------------------------------------------------------------------

/-- Every complaint about a file is about a token of it, at its place and in its own words. -/
theorem at_of_mem_reports_program (tokens : List Token) :
    ∀ r ∈ (program tokens).reports, ∃ after, r.At after tokens := by
  induction tokens using program.induct with
  | case1 =>
    intro r hMem
    rw [program] at hMem
    cases hMem
  | case2 t tail ht =>
    intro r hMem
    rw [program, dif_pos ht] at hMem
    cases hMem
  | case3 t tail ht s? rest reports hr hDone ih =>
    have hFirst := @complains_declaration t tail ht
    rw [hDone] at hFirst
    intro r hMem
    rw [program, dif_neg ht, hDone] at hMem
    rcases List.mem_append.mp hMem with hEarlier | hLater
    · obtain ⟨after, hAt, -⟩ := hFirst.2 r hEarlier
      exact ⟨after, hAt⟩
    · obtain ⟨after, hAt⟩ := ih r hLater
      exact ⟨after, hAt.mono hFirst.1⟩
  | case4 t tail ht reports hRanOff =>
    have hFirst := @complains_declaration t tail ht
    rw [hRanOff] at hFirst
    intro r hMem
    rw [program, dif_neg ht, hRanOff] at hMem
    obtain ⟨after, hAt, -⟩ := hFirst r hMem
    exact ⟨after, hAt⟩

end Parse

end Scriptlet
