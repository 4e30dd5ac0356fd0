import Scriptlet.Proofs.Parse.Complaints
import Scriptlet.Proofs.Parse.Completeness

/-!
# Scriptlet — tokens that keep to one declaration

Tokens in front of a semicolon among which nothing starts another statement keep
to one declaration, however malformed they are. No rule reads the semicolon but
the one that ends the declaration with it, and recovery goes on right behind it.
So two runs over such tokens that differ only behind the semicolon yield the same
statement and the same complaints, and then go on with what differs.

## Results

* `Confined`                — tokens that keep to one declaration.
* `Closing`                 — two ways to go on behind their semicolon.
* `Step.Same`               — steps that differ only behind it.
* `same_rule`, `same_statement` — the rules up to the semicolon.
* `synchronize_confined`    — recovery ends behind the semicolon.
* `declaration_confined`    — the declaration, after recovery.
-/

namespace Scriptlet.Parse

open Grammar Step

-- ---------------------------------------------------------------------------
-- Tokens in front of a semicolon
-- ---------------------------------------------------------------------------

/-- Tokens that keep to one declaration, which the next semicolon ends. -/
structure Confined (front : List Token) : Prop where
  plain : ∀ t ∈ front, t.kind ≠ .semicolon ∧ t.kind ≠ .leftBrace ∧ t.kind ≠ .eof
  later : ∀ t ∈ front.tail, startsStatement t.kind = false

/-- The same report with more tokens behind. -/
def Report.moved (more : Nat) (r : Report) : Report := { r with left := r.left + more }

/-- A semicolon, and two lists of tokens that may stand behind it. -/
structure Closing where
  semicolon : Token
  kind : semicolon.kind = .semicolon
  short : List Token
  long : List Token
  more : Nat
  length : long.length = short.length + more
  short_next : Next (· ≠ .elseKw) short
  long_next : Next (· ≠ .elseKw) long

namespace Closing

variable (C : Closing) {tokens others : List Token}

/-- The same confined tokens and the semicolon in front of each of the two lists. -/
def Ahead (tokens others : List Token) : Prop :=
  ∃ front, Confined front ∧ tokens = front ++ C.semicolon :: C.short ∧
    others = front ++ C.semicolon :: C.long

/-- The two lists themselves. -/
def Behind (tokens others : List Token) : Prop := tokens = C.short ∧ others = C.long

variable {C}

theorem Ahead.length (h : C.Ahead tokens others) : others.length = tokens.length + C.more := by
  obtain ⟨front, -, rfl, rfl⟩ := h
  simp only [List.length_append, List.length_cons, C.length]
  omega

/-- The next token is the semicolon exactly if it is of its kind. -/
theorem Ahead.next (h : C.Ahead tokens others) :
    ∃ t rest rest', tokens = t :: rest ∧ others = t :: rest' ∧ t.kind ≠ .eof ∧
      t.kind ≠ .leftBrace ∧ (t.kind = .semicolon → C.Behind rest rest') ∧
      (t.kind ≠ .semicolon → C.Ahead rest rest') := by
  obtain ⟨front, hFront, rfl, rfl⟩ := h
  cases front with
  | nil =>
    refine ⟨_, _, _, rfl, rfl, ?_, ?_, fun _ => ⟨rfl, rfl⟩, fun h => absurd C.kind h⟩
    · simp [C.kind]
    · simp [C.kind]
  | cons t front =>
    obtain ⟨hSemicolon, hBrace, hEof⟩ := hFront.plain t List.mem_cons_self
    refine ⟨t, _, _, rfl, rfl, hEof, hBrace, fun h => absurd h hSemicolon, fun _ => ?_⟩
    have hTail : Confined front :=
      ⟨fun u hu => hFront.plain u (List.mem_cons_of_mem t hu),
        fun u hu => hFront.later u (List.mem_of_mem_tail hu)⟩
    exact ⟨front, hTail, rfl, rfl⟩

end Closing

-- ---------------------------------------------------------------------------
-- Steps
-- ---------------------------------------------------------------------------

/--
Steps that end in the same way: both done with the same value in front of lists
as stated, or both given up in front of the semicolon. Neither runs off.
-/
inductive Step.Same {α : Type} (C : Closing) (left : List Token → List Token → Prop)
    {tokens others : List Token} : Step α tokens → Step α others → Prop where
  | done {v : α} {rest rest' : List Token} {reports : List Report} {h : Shorter rest tokens}
      {h' : Shorter rest' others} (hRest : left rest rest') :
      Same C left (.done v rest reports h) (.done v rest' (reports.map (·.moved C.more)) h')
  | abandoned {rest rest' : List Token} {reports : List Report} {h : rest <:+ tokens}
      {h' : rest' <:+ others} (hRest : C.Ahead rest rest') :
      Same C left (.abandoned rest reports h)
        (.abandoned rest' (reports.map (·.moved C.more)) h')

section

variable {C : Closing} {left later : List Token → List Token → Prop} {α β : Type}
  {tokens others part part' : List Token}

namespace Step

theorem same_within {s : Step α part} {s' : Step α part'} (h : part <:+ tokens)
    (h' : part' <:+ others) (hSame : s.Same C left s') :
    (s.within h).Same C left (s'.within h') := by
  cases hSame with
  | done hRest => exact .done hRest
  | abandoned hRest => exact .abandoned hRest

theorem same_prepend {s : Step α tokens} {s' : Step α others} (earlier : List Report)
    (hSame : s.Same C left s') :
    (s.prepend earlier).Same C left (s'.prepend (earlier.map (·.moved C.more))) := by
  cases hSame with
  | done hRest =>
    simp only [prepend, ← List.map_append]
    exact .done hRest
  | abandoned hRest =>
    simp only [prepend, ← List.map_append]
    exact .abandoned hRest

theorem same_map {s : Step α tokens} {s' : Step α others} (f : α → β) (hSame : s.Same C left s') :
    (s.map f).Same C left (s'.map f) := by
  cases hSame with
  | done hRest => exact .done hRest
  | abandoned hRest => exact .abandoned hRest

theorem same_andThen {first : Step α tokens} {first' : Step α others}
    {next : (value : α) → (rest : List Token) → Shorter rest tokens → Step β tokens}
    {next' : (value : α) → (rest : List Token) → Shorter rest others → Step β others}
    (hFirst : first.Same C left first')
    (hNext : ∀ v rest rest' h h', left rest rest' →
      (next v rest h).Same C later (next' v rest' h')) :
    (first.andThen next).Same C later (first'.andThen next') := by
  cases hFirst with
  | done hRest => exact same_prepend _ (hNext _ _ _ _ _ hRest)
  | abandoned hRest => exact .abandoned hRest

theorem same_bind {first : Step α tokens} {first' : Step α others}
    {next : (value : α) → (rest : List Token) → Shorter rest tokens → Step β rest}
    {next' : (value : α) → (rest : List Token) → Shorter rest others → Step β rest}
    (hFirst : first.Same C left first')
    (hNext : ∀ v rest rest' h h', left rest rest' →
      (next v rest h).Same C later (next' v rest' h')) :
    (first.bind next).Same C later (first'.bind next') :=
  same_andThen hFirst fun v rest rest' h h' hRest =>
    same_within h.1 h'.1 (hNext v rest rest' h h' hRest)

end Step

theorem report_moved {t : Token} {rest rest' : List Token} (complaint : Complaint)
    (hLength : rest'.length = rest.length + C.more) :
    [report t rest' complaint] = [report t rest complaint].map (·.moved C.more) := by
  simp only [report, Report.moved, List.map_cons, List.map_nil, hLength]
  congr 2
  omega

theorem same_abandon (complaint : Complaint) (h : C.Ahead tokens others) :
    (abandon complaint tokens : Step α tokens).Same C left (abandon complaint others) := by
  have hAll := h
  obtain ⟨t, rest, rest', rfl, rfl, -⟩ := h.next
  have hLength : rest'.length = rest.length + C.more := by
    have hLength := hAll.length
    simp only [List.length_cons] at hLength
    omega
  rw [abandon, abandon]
  simp only [report_moved complaint hLength]
  exact .abandoned hAll

theorem same_expect {kind : TokenKind} (hKind : kind ≠ .semicolon) (complaint : Complaint)
    (h : C.Ahead tokens others) :
    (expect kind complaint tokens).Same C C.Ahead (expect kind complaint others) := by
  have hAll := h
  obtain ⟨t, rest, rest', rfl, rfl, -, -, -, hRest⟩ := h.next
  rw [expect, expect]
  by_cases hIs : t.is kind
  · rw [if_pos hIs, if_pos hIs]
    have hThis : t.kind = kind := by
      rw [Token.is, Bool.and_eq_true, beq_iff_eq] at hIs
      exact hIs.2
    exact .done (hRest (hThis ▸ hKind))
  · rw [if_neg hIs, if_neg hIs]
    exact same_abandon complaint hAll

/-- The semicolon is read where it stands, and nothing else in its place. -/
theorem same_expect_semicolon (complaint : Complaint) (h : C.Ahead tokens others) :
    (expect .semicolon complaint tokens).Same C C.Behind (expect .semicolon complaint others) := by
  have hAll := h
  obtain ⟨t, rest, rest', rfl, rfl, -, -, hRest, -⟩ := h.next
  rw [expect, expect]
  by_cases hIs : t.is .semicolon
  · rw [if_pos hIs, if_pos hIs]
    exact .done (hRest ((is_iff (by decide)).mp hIs))
  · rw [if_neg hIs, if_neg hIs]
    exact same_abandon complaint hAll

end

-- ---------------------------------------------------------------------------
-- Expressions
-- ---------------------------------------------------------------------------

section

variable {C : Closing} {tokens others : List Token}

theorem same_chain (l : Level) (left : Expr) {rest rest' : List Token} (h : Shorter rest tokens)
    (h' : Shorter rest' others) (hRest : C.Ahead rest rest')
    (ih : ∀ after after', after.length < rest.length → C.Ahead after after' →
      (operand l after).Same C C.Ahead (operand l after')) :
    (chain l left rest h).Same C C.Ahead (chain l left rest' h') := by
  induction hn : rest.length using Nat.strongRecOn generalizing tokens others left rest rest' with
  | ind n step =>
    subst hn
    have hAll := hRest
    obtain ⟨t, after, after', rfl, rfl, -, -, -, hAfter⟩ := hRest.next
    rw [chain, chain]
    by_cases hOp : l.operators.contains t.kind
    · rw [if_pos hOp, if_pos hOp]
      have hThis : t.kind ≠ .semicolon := by
        intro hSemicolon
        rw [hSemicolon, List.contains_iff_mem] at hOp
        exact not_mem_operators (by simp) l hOp
      refine same_within _ _ (same_andThen (ih after after' (by simp) (hAfter hThis)) ?_)
      intro right rest rest' hr hr' hMore
      have hLess : rest.length < (t :: after).length := Nat.lt_succ_of_lt hr.2
      exact step rest.length hLess _ hr hr' hMore
        (fun more more' hm => ih more more' (Nat.lt_trans hm hLess)) rfl
    · rw [if_neg hOp, if_neg hOp]
      exact .done hAll

theorem same_assignment
    (ihLevel : (level .or tokens).Same C C.Ahead (level .or others))
    (ih : ∀ after after', after.length < tokens.length → C.Ahead after after' →
      (assignment after).Same C C.Ahead (assignment after')) :
    (assignment tokens).Same C C.Ahead (assignment others) := by
  rw [assignment, assignment]
  refine same_andThen ihLevel ?_
  intro target rest rest' h h' hRest
  have hAll := hRest
  obtain ⟨t, after, after', rfl, rfl, -, -, -, hAfter⟩ := hRest.next
  dsimp only
  by_cases hEqual : t.kind = .equal
  · rw [if_pos hEqual, if_pos hEqual]
    have hValue := hAfter (by simp [hEqual])
    refine same_within _ _ (same_andThen (ih after after' h.length_tail_lt hValue) ?_)
    intro value rest rest' hr hr' hRest
    cases assignTo? target value with
    | some e => exact .done hRest
    | none =>
      simp only [report_moved Complaint.invalidTarget hValue.length]
      exact .done hRest
  · rw [if_neg hEqual, if_neg hEqual]
    exact .done hAll

theorem same_level {l : Level} (ihOperand : (operand l tokens).Same C C.Ahead (operand l others))
    (ih : ∀ after after', after.length < tokens.length → C.Ahead after after' →
      (operand l after).Same C C.Ahead (operand l after')) :
    (level l tokens).Same C C.Ahead (level l others) := by
  rw [level, level]
  refine same_andThen ihOperand ?_
  intro left rest rest' h h' hRest
  exact same_chain l left h h' hRest fun after after' hLess =>
    ih after after' (Nat.lt_trans hLess h.2)

theorem same_unary (hTokens : C.Ahead tokens others)
    (ihPrimary : (primary tokens).Same C C.Ahead (primary others))
    (ih : ∀ after after', after.length < tokens.length → C.Ahead after after' →
      (unary after).Same C C.Ahead (unary after')) :
    (unary tokens).Same C C.Ahead (unary others) := by
  obtain ⟨t, rest, rest', rfl, rfl, -, -, -, hRest⟩ := hTokens.next
  rw [unary, unary]
  by_cases hKind : t.kind = .bang ∨ t.kind = .minus
  · rw [if_pos hKind, if_pos hKind]
    have hThis : t.kind ≠ .semicolon := by rcases hKind with h | h <;> simp [h]
    exact same_within _ _ (same_map _ (ih rest rest' (by simp) (hRest hThis)))
  · rw [if_neg hKind, if_neg hKind]
    exact ihPrimary

/-- No expression starts with a semicolon. -/
theorem primary_semicolon {t : Token} {rest : List Token} (h : t.kind = .semicolon) :
    primary (t :: rest) = abandon .noExpression (t :: rest) := by
  have hLiteral : literalOf? t = none := by simp [literalOf?, h]
  have hOperator : needsLeftOperand t.kind = false := by
    rw [h]
    decide
  rw [primary, hLiteral, hOperator]
  simp [h]

theorem same_primary (hTokens : C.Ahead tokens others)
    (ih : ∀ after after', after.length < tokens.length → C.Ahead after after' →
      (expression after).Same C C.Ahead (expression after')) :
    (primary tokens).Same C C.Ahead (primary others) := by
  have hAll := hTokens
  obtain ⟨t, rest, rest', rfl, rfl, -, -, -, hRest⟩ := hTokens.next
  by_cases hThis : t.kind = .semicolon
  · rw [primary_semicolon hThis, primary_semicolon hThis]
    exact same_abandon .noExpression hAll
  rw [primary, primary]
  have hRest := hRest hThis
  have hInner := ih rest rest' (by simp) hRest
  cases literalOf? t with
  | some value => exact .done hRest
  | none =>
    dsimp only
    by_cases hName : t.kind = .identifier
    · rw [if_pos hName, if_pos hName]
      exact .done hRest
    rw [if_neg hName, if_neg hName]
    by_cases hParen : t.kind = .leftParen
    · rw [if_pos hParen, if_pos hParen]
      refine same_within _ _ (same_bind hInner ?_)
      intro inner after after' _ _ hAfter
      exact same_map _ (same_expect (by decide) .openGroup hAfter)
    rw [if_neg hParen, if_neg hParen]
    by_cases hOperator : needsLeftOperand t.kind
    · rw [if_pos hOperator, if_pos hOperator, report_moved Complaint.noLeftOperand hRest.length]
      exact same_within _ _ (same_prepend _ hInner)
    · rw [if_neg hOperator, if_neg hOperator]
      exact same_abandon .noExpression hAll

/-- No rule that reads an expression reads the semicolon, by induction along the descent. -/
theorem same_rule (rule : Rule) (tokens : List Token) :
    ∀ others, C.Ahead tokens others → (rule.run tokens).Same C C.Ahead (rule.run others) := by
  induction rule, tokens using Rule.induct with
  | expression tokens ih =>
    intro others hTokens
    show (expression tokens).Same C _ (expression others)
    rw [expression, expression]
    exact ih others hTokens
  | assignment tokens ihLevel ih =>
    intro others hTokens
    exact same_assignment (ihLevel others hTokens) fun after after' h => ih after h after'
  | level l tokens ihOperand ih =>
    intro others hTokens
    exact same_level (ihOperand others hTokens) fun after after' h => ih after h after'
  | operand l tokens ih =>
    intro others hTokens
    show (operand l tokens).Same C _ (operand l others)
    rw [operand_eq_run_below, operand_eq_run_below]
    exact ih others hTokens
  | unary tokens ihPrimary ih =>
    intro others hTokens
    exact same_unary hTokens (ihPrimary others hTokens) fun after after' h => ih after h after'
  | primary tokens ih =>
    intro others hTokens
    exact same_primary hTokens fun after after' h => ih after h after'

theorem same_expression (h : C.Ahead tokens others) :
    (expression tokens).Same C C.Ahead (expression others) :=
  same_rule .expression tokens others h

-- ---------------------------------------------------------------------------
-- Statements
-- ---------------------------------------------------------------------------

/-- An expression and the semicolon behind it. -/
theorem same_ended {β : Type} (h : C.Ahead tokens others) (complaint : Complaint)
    (f : Expr → β) :
    ((expression tokens).bind fun e rest _ =>
        (expect .semicolon complaint rest).map fun _ => f e).Same C C.Behind
      ((expression others).bind fun e rest _ =>
        (expect .semicolon complaint rest).map fun _ => f e) := by
  refine same_bind (same_expression h) ?_
  intro e rest rest' _ _ hRest
  exact same_map _ (same_expect_semicolon complaint hRest)

theorem same_varDeclaration (h : C.Ahead tokens others) :
    (varDeclaration tokens).Same C C.Behind (varDeclaration others) := by
  rw [varDeclaration, varDeclaration]
  refine same_andThen (same_expect (by decide) .noVariableName h) ?_
  intro name rest rest' hr hr' hRest
  have hAll := hRest
  obtain ⟨t, after, after', rfl, rfl, -, -, -, hAfter⟩ := hRest.next
  dsimp only
  by_cases hEqual : t.kind = .equal
  · rw [if_pos hEqual, if_pos hEqual]
    exact same_within _ _ (same_ended (hAfter (by simp [hEqual])) _ _)
  · rw [if_neg hEqual, if_neg hEqual]
    exact same_within _ _ (same_map _ (same_expect_semicolon .openDeclaration hAll))

theorem same_condition (noParen openParen : Complaint) (h : C.Ahead tokens others) :
    (condition noParen openParen tokens).Same C C.Ahead (condition noParen openParen others) := by
  refine same_bind (same_expect (by decide) noParen h) ?_
  intro _ rest rest' _ _ hRest
  refine same_bind (same_expression hRest) ?_
  intro e rest rest' _ _ hRest
  exact same_map _ (same_expect (by decide) openParen hRest)

/-- What leads no statement of its own is an expression. -/
theorem statement_of_plain {t : Token} {rest : List Token} (hBrace : t.kind ≠ .leftBrace)
    (hStarts : startsStatement t.kind = false) :
    statement (t :: rest) = expressionStatement (t :: rest) := by
  rw [statement]
  split
  · next hKind => simp [hKind, startsStatement] at hStarts
  · next hKind => simp [hKind, startsStatement] at hStarts
  · next hKind => simp [hKind, startsStatement] at hStarts
  · next hKind => simp [hKind, startsStatement] at hStarts
  · next hKind => exact absurd hKind hBrace
  · rfl

/-- Behind the first of confined tokens no statement starts before the semicolon. -/
theorem Closing.Ahead.plain {t : Token} {tail tail' rest rest' : List Token}
    (hWhole : C.Ahead (t :: tail) (t :: tail')) (hRest : rest <:+ tail) (h : C.Ahead rest rest') :
    ∃ u after after', rest = u :: after ∧ rest' = u :: after' ∧ u.kind ≠ .leftBrace ∧
      startsStatement u.kind = false := by
  obtain ⟨front, hFront, rfl, rfl⟩ := h
  cases front with
  | nil =>
    refine ⟨_, _, _, rfl, rfl, ?_, ?_⟩
    · simp [C.kind]
    · rw [C.kind]
      decide
  | cons u front =>
    obtain ⟨-, hBrace, -⟩ := hFront.plain u List.mem_cons_self
    refine ⟨u, _, _, rfl, rfl, hBrace, ?_⟩
    obtain ⟨whole, hConfined, hTokens, -⟩ := hWhole
    cases whole with
    | nil =>
      -- nothing is left before the semicolon, but what is left is longer than that
      have hLess := hRest.length_le
      cases hTokens
      simp only [List.length_append, List.length_cons] at hLess
      omega
    | cons w whole =>
      rw [List.cons_append, List.cons.injEq] at hTokens
      obtain ⟨-, rfl⟩ := hTokens
      obtain ⟨between, hBetween⟩ := hRest
      rw [← List.append_assoc, List.append_left_inj] at hBetween
      refine hConfined.later u ?_
      rw [List.tail_cons, ← hBetween]
      simp

section

variable {t : Token} {tail tail' : List Token}

/-- A statement behind the first of confined tokens is an expression and the semicolon. -/
theorem same_statement_inside (hWhole : C.Ahead (t :: tail) (t :: tail')) {rest rest' : List Token}
    (hRest : rest <:+ tail) (h : C.Ahead rest rest') :
    (statement rest).Same C C.Behind (statement rest') := by
  have hAll := h
  obtain ⟨u, after, after', rfl, rfl, hBrace, hStarts⟩ := hWhole.plain hRest h
  rw [statement_of_plain hBrace hStarts, statement_of_plain hBrace hStarts]
  exact same_ended hAll .openExpression Stmt.expression

/-- The `if` looks for an `else` behind the semicolon; there is none on either side. -/
theorem same_ifStatement (hWhole : C.Ahead (t :: tail) (t :: tail')) (h : C.Ahead tail tail') :
    (ifStatement tail).Same C C.Behind (ifStatement tail') := by
  rw [ifStatement, ifStatement]
  refine same_bind (same_condition .noIfParen .openIfCondition h) ?_
  intro e rest rest' hr hr' hRest
  refine same_andThen (same_statement_inside hWhole hr.1 hRest) ?_
  intro thenBranch after after' ha ha' hAfter
  obtain ⟨u, short, hShort, hElse⟩ := C.short_next
  obtain ⟨u', long, hLong, hElse'⟩ := C.long_next
  obtain rfl : after = u :: short := hAfter.1.trans hShort
  obtain rfl : after' = u' :: long := hAfter.2.trans hLong
  dsimp only
  rw [if_neg hElse, if_neg hElse']
  exact .done hAfter

theorem same_whileStatement (hWhole : C.Ahead (t :: tail) (t :: tail')) (h : C.Ahead tail tail') :
    (whileStatement tail).Same C C.Behind (whileStatement tail') := by
  rw [whileStatement, whileStatement]
  refine same_bind (same_condition .noWhileParen .openWhileCondition h) ?_
  intro e rest rest' hr hr' hRest
  exact same_map _ (same_statement_inside hWhole hr.1 hRest)

/-- A statement of confined tokens, `for` loops aside: their head has semicolons of its own. -/
theorem same_statement (h : C.Ahead (t :: tail) (t :: tail')) (hFor : t.kind ≠ .forKw) :
    (statement (t :: tail)).Same C C.Behind (statement (t :: tail')) := by
  obtain ⟨u, rest, rest', hEq, hEq', -, hBrace, -, hTail⟩ := h.next
  cases hEq
  cases hEq'
  rw [statement, statement]
  cases hKind : t.kind
  case forKw => exact absurd hKind hFor
  case leftBrace => exact absurd hKind hBrace
  case ifKw => exact same_within _ _ (same_ifStatement h (hTail (by simp [hKind])))
  case printKw => exact same_within _ _ (same_ended (hTail (by simp [hKind])) _ _)
  case whileKw => exact same_within _ _ (same_whileStatement h (hTail (by simp [hKind])))
  all_goals exact same_ended h .openExpression Stmt.expression

end

end

-- ---------------------------------------------------------------------------
-- Recovery
-- ---------------------------------------------------------------------------

/-- From behind its first token, recovery skips confined tokens and the semicolon. -/
theorem skipFrom_confined {last semicolon : Token} {front back : List Token}
    (hLast : last.kind ≠ .semicolon)
    (hFront : ∀ t ∈ front, t.kind ≠ .semicolon ∧ t.kind ≠ .eof ∧ startsStatement t.kind = false)
    (hSemicolon : semicolon.kind = .semicolon) (hBack : back ≠ []) :
    skipFrom last (front ++ semicolon :: back) = some back := by
  induction front generalizing last with
  | nil =>
    obtain ⟨u, after, rfl⟩ := List.exists_cons_of_ne_nil hBack
    have hOn : ¬(semicolon.kind = .eof ∨ last.kind = .semicolon ∨
        startsStatement semicolon.kind = true) := by
      rw [hSemicolon]
      simp [hLast, startsStatement]
    rw [List.nil_append, skipFrom, if_neg hOn, skipFrom, if_pos (.inr (.inl hSemicolon))]
  | cons t front ih =>
    obtain ⟨⟨hThis, hEof, hStarts⟩, hMore⟩ := List.forall_mem_cons.mp hFront
    have hOn : ¬(t.kind = .eof ∨ last.kind = .semicolon ∨ startsStatement t.kind = true) := by
      simp [hEof, hLast, hStarts]
    rw [List.cons_append, skipFrom, if_neg hOn]
    exact ih hThis hMore

/-- Recovery ends behind the semicolon, wherever among confined tokens it starts. -/
theorem synchronize_confined {semicolon : Token} {front back : List Token} (h : Confined front)
    (hSemicolon : semicolon.kind = .semicolon) (hBack : back ≠ []) :
    synchronize (front ++ semicolon :: back) = some back := by
  cases front with
  | nil =>
    obtain ⟨u, after, rfl⟩ := List.exists_cons_of_ne_nil hBack
    rw [List.nil_append, synchronize, if_neg (by simp [hSemicolon]), skipFrom,
      if_pos (.inr (.inl hSemicolon))]
  | cons t front =>
    obtain ⟨⟨hThis, -, hEof⟩, hMore⟩ := List.forall_mem_cons.mp h.plain
    rw [List.cons_append, synchronize, if_neg hEof]
    refine skipFrom_confined hThis ?_ hSemicolon hBack
    intro u hu
    exact ⟨(hMore u hu).1, (hMore u hu).2.2, h.later u hu⟩

/-- A dropped declaration ends where recovery does. -/
theorem recover_of_synchronize {t : Token} {tail tokens rest : List Token} (ht : t.kind ≠ .eof)
    (reports : List Report) (h : tokens <:+ t :: tail) (hSome : synchronize tokens = some rest) :
    ∃ hr, recover ht (.abandoned tokens reports h) = .done none rest reports hr := by
  refine ⟨shorter_of_synchronize ht h hSome, ?_⟩
  rw [recover]
  split
  · next hNone =>
    rw [hSome] at hNone
    cases hNone
  · next hAfter =>
    rw [hSome] at hAfter
    cases hAfter
    rfl

section

variable {C : Closing} {t : Token} {tail tail' : List Token}

theorem Next.ne_nil {p : TokenKind → Prop} {tokens : List Token} (h : Next p tokens) :
    tokens ≠ [] := by
  obtain ⟨t, after, rfl, -⟩ := h
  exact List.cons_ne_nil t after

/--
What becomes of a declaration: a statement or none, the same complaints about
tokens up to the semicolon, and the two lists behind it.
-/
theorem recover_confined {ht : t.kind ≠ .eof} {s : Step Stmt (t :: tail)}
    {s' : Step Stmt (t :: tail')} (hSame : s.Same C C.Behind s')
    (hComplains : s.Complains (t :: tail) (t :: tail)) :
    ∃ s? reports h h', recover ht s = .done s? C.short reports h ∧
      recover ht s' = .done s? C.long (reports.map (·.moved C.more)) h' ∧
      ∀ r ∈ reports, r.AboutRead (t :: tail) C.short := by
  cases hSame with
  | @done v rest rest' reports h h' hRest =>
    obtain ⟨rfl, rfl⟩ := hRest
    exact ⟨some v, reports, h, h', rfl, rfl, hComplains.2⟩
  | @abandoned rest rest' reports h h' hRest =>
    obtain ⟨front, hFront, rfl, rfl⟩ := hRest
    have hSome := synchronize_confined hFront C.kind C.short_next.ne_nil
    have hSome' := synchronize_confined hFront C.kind C.long_next.ne_nil
    obtain ⟨hr, hDone⟩ := recover_of_synchronize ht reports h hSome
    obtain ⟨hr', hDone'⟩ := recover_of_synchronize ht (reports.map (·.moved C.more)) h' hSome'
    refine ⟨none, reports, hr, hr', hDone, hDone', ?_⟩
    intro r hMem
    refine (hComplains.2 r hMem).read ⟨⟨front ++ [C.semicolon], by simp⟩, ?_⟩
    simp only [List.length_append, List.length_cons]
    omega

/-- A declaration of confined tokens ends with their semicolon. -/
theorem declaration_confined (hTokens : C.Ahead (t :: tail) (t :: tail')) (hFor : t.kind ≠ .forKw)
    (ht : t.kind ≠ .eof) :
    ∃ s? reports h h', declaration t tail ht = .done s? C.short reports h ∧
      declaration t tail' ht = .done s? C.long (reports.map (·.moved C.more)) h' ∧
      ∀ r ∈ reports, r.AboutRead (t :: tail) C.short := by
  obtain ⟨u, rest, rest', hEq, hEq', -, -, -, hTail⟩ := hTokens.next
  cases hEq
  cases hEq'
  rw [declaration, declaration]
  by_cases hVar : t.kind = .varKw
  · rw [if_pos hVar, if_pos hVar]
    have hSame := same_varDeclaration (hTail (by simp [hVar]))
    exact recover_confined (same_within _ _ hSame)
      (complains_behind (complains_varDeclaration tail))
  · rw [if_neg hVar, if_neg hVar]
    exact recover_confined (same_statement hTokens hFor) (complains_statement (t :: tail))

end

end Scriptlet.Parse
