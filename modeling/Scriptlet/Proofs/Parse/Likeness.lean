import Mathlib.Data.Option.Basic
import Scriptlet.Proofs.Parse.Descent
import Scriptlet.Proofs.Tree.Likeness

/-!
# Scriptlet — the parser looks at kinds only

Every decision of the descent depends on the kind of a token. Tokens that are of
the same kinds at every place are therefore read alike: each rule ends in the
same way, at the same place and with the same complaints about tokens at the same
places, and it yields trees of the same shape with tokens from the same places as
their leaves. What tokens at the same place have in common besides is left to a
relation, and so is what their literals have in common.

## Results

* `ReadAlike`               — tokens that are read alike.
* `Step.Like`, `Program.Like` — steps and programs that are alike.
* `like_rule`               — expressions.
* `like_statement_and_block` — statements and blocks.
* `like_program`            — programs.
-/

namespace Scriptlet.Parse

-- ---------------------------------------------------------------------------
-- Steps
-- ---------------------------------------------------------------------------

/-- Tokens that are alike are of the same kind, and their literals are alike. -/
structure ReadAlike (alike : Token → Token → Prop) (value : Value → Value → Prop) : Prop where
  kind : ∀ t u, alike t u → u.kind = t.kind
  literal : ∀ t u, alike t u → t.kind = .number ∨ t.kind = .string → value t.literal u.literal
  bool : ∀ b : Bool, value (.bool b) (.bool b)
  nil : value .nil .nil

theorem ReadAlike.kind_ne {alike : Token → Token → Prop} {value : Value → Value → Prop}
    (L : ReadAlike alike value) {t u : Token} (h : alike t u) {kind : TokenKind}
    (ht : t.kind ≠ kind) : u.kind ≠ kind := by
  rw [L.kind t u h]
  exact ht

theorem ReadAlike.isEof_eq {alike : Token → Token → Prop} {value : Value → Value → Prop}
    (L : ReadAlike alike value) {t u : Token} (h : alike t u) : u.isEof = t.isEof := by
  unfold Token.isEof
  rw [L.kind t u h]

theorem ReadAlike.is_eq {alike : Token → Token → Prop} {value : Value → Value → Prop}
    (L : ReadAlike alike value) {t u : Token} (h : alike t u) (kind : TokenKind) :
    u.is kind = t.is kind := by
  unfold Token.is
  rw [L.isEof_eq h, L.kind t u h]

/-- The same complaint at the same place, about tokens that are alike. -/
structure Report.Like (alike : Token → Token → Prop) (r s : Report) : Prop where
  token : alike r.token s.token
  left : s.left = r.left
  complaint : s.complaint = r.complaint

section

variable {alike : Token → Token → Prop} {α β γ δ : Type} {P : α → β → Prop} {Q : γ → δ → Prop}
  {tokens others shorter less : List Token}

/-- Steps that end in the same way, with tokens left and reports that are alike. -/
inductive Step.Like (alike : Token → Token → Prop) (P : α → β → Prop) {tokens others : List Token} :
    Step α tokens → Step β others → Prop where
  | done {v : α} {w : β} {rest rest' : List Token} {reports reports' : List Report}
      {h : Shorter rest tokens} {h' : Shorter rest' others} (hValue : P v w)
      (hRest : List.Forall₂ alike rest rest')
      (hReports : List.Forall₂ (Report.Like alike) reports reports') :
      Like alike P (.done v rest reports h) (.done w rest' reports' h')
  | abandoned {rest rest' : List Token} {reports reports' : List Report} {h : rest <:+ tokens}
      {h' : rest' <:+ others} (hRest : List.Forall₂ alike rest rest')
      (hReports : List.Forall₂ (Report.Like alike) reports reports') :
      Like alike P (.abandoned rest reports h) (.abandoned rest' reports' h')
  | ranOff {reports reports' : List Report}
      (hReports : List.Forall₂ (Report.Like alike) reports reports') :
      Like alike P (.ranOff reports) (.ranOff reports')

/-- A rule reads tokens alike as long as there are fewer of them than of the given ones. -/
def AlikeBelow (alike : Token → Token → Prop) (P : α → α → Prop)
    (rule : (tokens : List Token) → Step α tokens) (tokens : List Token) : Prop :=
  ∀ after after', after.length < tokens.length → List.Forall₂ alike after after' →
    (rule after).Like alike P (rule after')

theorem AlikeBelow.mono {P : α → α → Prop} {rule : (tokens : List Token) → Step α tokens}
    (h : AlikeBelow alike P rule tokens) (hLength : less.length ≤ tokens.length) :
    AlikeBelow alike P rule less :=
  fun after after' hLess => h after after' (Nat.lt_of_lt_of_le hLess hLength)

namespace Step

theorem like_within {s : Step α shorter} {s' : Step β less} (h : shorter <:+ tokens)
    (h' : less <:+ others) (hLike : s.Like alike P s') :
    (s.within h).Like alike P (s'.within h') := by
  cases hLike with
  | done hValue hRest hReports => exact .done hValue hRest hReports
  | abandoned hRest hReports => exact .abandoned hRest hReports
  | ranOff hReports => exact .ranOff hReports

theorem like_prepend {s : Step α tokens} {s' : Step β others} {earlier earlier' : List Report}
    (hEarlier : List.Forall₂ (Report.Like alike) earlier earlier') (hLike : s.Like alike P s') :
    (s.prepend earlier).Like alike P (s'.prepend earlier') := by
  cases hLike with
  | done hValue hRest hReports => exact .done hValue hRest (List.rel_append hEarlier hReports)
  | abandoned hRest hReports => exact .abandoned hRest (List.rel_append hEarlier hReports)
  | ranOff hReports => exact .ranOff (List.rel_append hEarlier hReports)

theorem like_map {s : Step α tokens} {s' : Step β others} {f : α → γ} {g : β → δ}
    (hLike : s.Like alike P s') (hf : ∀ v w, P v w → Q (f v) (g w)) :
    (s.map f).Like alike Q (s'.map g) := by
  cases hLike with
  | done hValue hRest hReports => exact .done (hf _ _ hValue) hRest hReports
  | abandoned hRest hReports => exact .abandoned hRest hReports
  | ranOff hReports => exact .ranOff hReports

theorem like_andThen {first : Step α tokens} {first' : Step β others}
    {next : (value : α) → (rest : List Token) → Shorter rest tokens → Step γ tokens}
    {next' : (value : β) → (rest : List Token) → Shorter rest others → Step δ others}
    (hFirst : first.Like alike P first')
    (hNext : ∀ v w rest rest' h h', P v w → List.Forall₂ alike rest rest' →
      (next v rest h).Like alike Q (next' w rest' h')) :
    (first.andThen next).Like alike Q (first'.andThen next') := by
  cases hFirst with
  | done hValue hRest hReports =>
    exact like_prepend hReports (hNext _ _ _ _ _ _ hValue hRest)
  | abandoned hRest hReports => exact .abandoned hRest hReports
  | ranOff hReports => exact .ranOff hReports

theorem like_bind {first : Step α tokens} {first' : Step β others}
    {next : (value : α) → (rest : List Token) → Shorter rest tokens → Step γ rest}
    {next' : (value : β) → (rest : List Token) → Shorter rest others → Step δ rest}
    (hFirst : first.Like alike P first')
    (hNext : ∀ v w rest rest', Shorter rest tokens → P v w → List.Forall₂ alike rest rest' →
      ∀ h h', (next v rest h).Like alike Q (next' w rest' h')) :
    (first.bind next).Like alike Q (first'.bind next') :=
  like_andThen hFirst fun v w rest rest' h h' hValue hRest =>
    like_within h.1 h'.1 (hNext v w rest rest' h hValue hRest h h')

end Step

end

open Step

section

variable {alike : Token → Token → Prop} {value : Value → Value → Prop}

theorem like_report {t u : Token} {rest rest' : List Token} (hHead : alike t u)
    (hRest : List.Forall₂ alike rest rest') (complaint : Complaint) :
    List.Forall₂ (Report.Like alike) [report t rest complaint] [report u rest' complaint] := by
  have hLeft : rest'.length + 1 = rest.length + 1 := by rw [hRest.length_eq]
  exact .cons ⟨hHead, hLeft, rfl⟩ .nil

theorem like_abandon {α β : Type} {P : α → β → Prop} {tokens others : List Token}
    (hTokens : List.Forall₂ alike tokens others) (complaint : Complaint) :
    (abandon complaint tokens).Like alike P (abandon complaint others) := by
  cases hTokens with
  | nil => exact .ranOff .nil
  | cons hHead hTail => exact .abandoned (.cons hHead hTail) (like_report hHead hTail complaint)

variable (L : ReadAlike alike value)

include L

theorem like_expect {tokens others : List Token} (hTokens : List.Forall₂ alike tokens others)
    (kind : TokenKind) (complaint : Complaint) :
    (expect kind complaint tokens).Like alike alike (expect kind complaint others) := by
  cases hTokens with
  | nil => exact .ranOff .nil
  | @cons t u rest rest' hHead hTail =>
    rw [expect, expect, L.is_eq hHead kind]
    by_cases hKind : t.is kind
    · rw [if_pos hKind, if_pos hKind]
      exact .done hHead hTail .nil
    · rw [if_neg hKind, if_neg hKind]
      exact like_abandon (.cons hHead hTail) complaint

/-- Steps and a token behind them. -/
theorem like_closed {α β γ δ : Type} {P : α → β → Prop} {Q : γ → δ → Prop}
    {tokens others : List Token} {kind : TokenKind} {complaint : Complaint}
    {first : Step α tokens} {first' : Step β others} {f : α → Token → γ} {g : β → Token → δ}
    (hFirst : first.Like alike P first')
    (hf : ∀ v w t u, P v w → alike t u → Q (f v t) (g w u)) :
    (first.bind fun v rest _ => (expect kind complaint rest).map (f v)).Like alike Q
      (first'.bind fun w rest _ => (expect kind complaint rest).map (g w)) := by
  refine like_bind hFirst ?_
  intro v w rest rest' h hValue hRest _ _
  exact like_map (like_expect L hRest kind complaint) fun t u hToken => hf v w t u hValue hToken

-- ---------------------------------------------------------------------------
-- Expressions
-- ---------------------------------------------------------------------------

omit L in
theorem like_node (l : Level) {left left' right right' : Expr} {t u : Token} (hOperator : alike t u)
    (hLeft : left.Like alike alike value left') (hRight : right.Like alike alike value right') :
    (l.node left t right).Like alike alike value (l.node left' u right') := by
  cases l with
  | or => exact .logical hOperator hLeft hRight
  | and => exact .logical hOperator hLeft hRight
  | _ => exact .binary hOperator hLeft hRight

omit L in
theorem like_assignTo? {target target' e e' : Expr}
    (hTarget : target.Like alike alike value target') (hValue : e.Like alike alike value e') :
    Option.Rel (Expr.Like alike alike value) (assignTo? target e) (assignTo? target' e') := by
  cases hTarget with
  | «variable» hName => exact .some (.assign hName hValue)
  | _ => exact .none

theorem like_literalOf? {t u : Token} (h : alike t u) :
    Option.Rel value (literalOf? t) (literalOf? u) := by
  have hLiteral := L.literal t u h
  unfold literalOf?
  rw [L.kind t u h]
  cases hKind : t.kind
  case trueKw => exact .some (L.bool true)
  case falseKw => exact .some (L.bool false)
  case nilKw => exact .some L.nil
  case number => exact .some (hLiteral (.inl hKind))
  case string => exact .some (hLiteral (.inr hKind))
  all_goals exact .none

theorem like_chain {tokens others : List Token} (l : Level) {left left' : Expr}
    {rest rest' : List Token} (h : Shorter rest tokens) (h' : Shorter rest' others)
    (hLeft : left.Like alike alike value left') (hRest : List.Forall₂ alike rest rest')
    (ih : AlikeBelow alike (Expr.Like alike alike value) (operand l) rest) :
    (chain l left rest h).Like alike (Expr.Like alike alike value) (chain l left' rest' h') := by
  induction hn : rest.length using Nat.strongRecOn generalizing tokens others left left' rest
    rest' with
  | ind n step =>
    subst hn
    cases hRest with
    | nil =>
      rw [chain, chain]
      exact .ranOff .nil
    | @cons t u after after' hHead hTail =>
      rw [chain, chain, L.kind t u hHead]
      by_cases hOp : l.operators.contains t.kind
      · rw [if_pos hOp, if_pos hOp]
        refine like_within _ _ (like_andThen (ih after after' (by simp) hTail) ?_)
        intro right right' rest rest' hr hr' hRight hRest
        have hNode := like_node l hHead hLeft hRight
        have hLess : rest.length < (t :: after).length := Nat.lt_succ_of_lt hr.2
        exact step rest.length hLess hr hr' hNode hRest (ih.mono (Nat.le_of_lt hLess)) rfl
      · rw [if_neg hOp, if_neg hOp]
        exact .done hLeft (.cons hHead hTail) .nil

theorem like_assignment {tokens others : List Token}
    (ihLevel : (level .or tokens).Like alike (Expr.Like alike alike value) (level .or others))
    (ih : AlikeBelow alike (Expr.Like alike alike value) assignment tokens) :
    (assignment tokens).Like alike (Expr.Like alike alike value) (assignment others) := by
  rw [assignment, assignment]
  refine like_andThen ihLevel ?_
  intro target target' rest rest' h h' hTarget hRest
  cases hRest with
  | nil => exact .ranOff .nil
  | @cons t u after after' hHead hTail =>
    dsimp only
    rw [L.kind t u hHead]
    by_cases hEqual : t.kind = .equal
    · rw [if_pos hEqual, if_pos hEqual]
      have hAfter := ih after after' h.length_tail_lt hTail
      refine like_within _ _ (like_andThen hAfter ?_)
      intro e e' rest rest' hr hr' hValue hRest
      have hAssign := like_assignTo? hTarget hValue
      generalize assignTo? target e = made at hAssign ⊢
      generalize assignTo? target' e' = made' at hAssign ⊢
      cases hAssign with
      | some hMade => exact .done hMade hRest .nil
      | none => exact .done hTarget hRest (like_report hHead hTail .invalidTarget)
    · rw [if_neg hEqual, if_neg hEqual]
      exact .done hTarget (.cons hHead hTail) .nil

theorem like_level {tokens others : List Token} {l : Level}
    (ihOperand : (operand l tokens).Like alike (Expr.Like alike alike value) (operand l others))
    (ih : AlikeBelow alike (Expr.Like alike alike value) (operand l) tokens) :
    (level l tokens).Like alike (Expr.Like alike alike value) (level l others) := by
  rw [level, level]
  refine like_andThen ihOperand ?_
  intro left left' rest rest' h h' hLeft hRest
  exact like_chain L l h h' hLeft hRest (ih.mono (Nat.le_of_lt h.2))

theorem like_unary {tokens others : List Token} (hTokens : List.Forall₂ alike tokens others)
    (ihPrimary : (primary tokens).Like alike (Expr.Like alike alike value) (primary others))
    (ih : AlikeBelow alike (Expr.Like alike alike value) unary tokens) :
    (unary tokens).Like alike (Expr.Like alike alike value) (unary others) := by
  cases hTokens with
  | nil =>
    rw [unary]
    exact .ranOff .nil
  | @cons t u rest rest' hHead hTail =>
    rw [unary, unary, L.kind t u hHead]
    by_cases hKind : t.kind = .bang ∨ t.kind = .minus
    · rw [if_pos hKind, if_pos hKind]
      refine like_within _ _ (like_map (ih rest rest' (by simp) hTail) ?_)
      intro operand operand' hOperand
      exact .unary hHead hOperand
    · rw [if_neg hKind, if_neg hKind]
      exact ihPrimary

theorem like_primary {tokens others : List Token} (hTokens : List.Forall₂ alike tokens others)
    (ih : AlikeBelow alike (Expr.Like alike alike value) expression tokens) :
    (primary tokens).Like alike (Expr.Like alike alike value) (primary others) := by
  cases hTokens with
  | nil =>
    rw [primary]
    exact .ranOff .nil
  | @cons t u rest rest' hHead hTail =>
    have hInner := ih rest rest' (by simp) hTail
    have hLiteral := like_literalOf? L hHead
    rw [primary, primary, L.kind t u hHead]
    generalize literalOf? t = literal at hLiteral ⊢
    generalize literalOf? u = literal' at hLiteral ⊢
    cases hLiteral with
    | some hValue => exact .done (.literal hValue) hTail .nil
    | none =>
      dsimp only
      by_cases hName : t.kind = .identifier
      · rw [if_pos hName, if_pos hName]
        exact .done (.variable hHead) hTail .nil
      rw [if_neg hName, if_neg hName]
      by_cases hParen : t.kind = .leftParen
      · rw [if_pos hParen, if_pos hParen]
        refine like_within _ _ (like_closed L hInner ?_)
        intro inner inner' _ _ hLike _
        exact .grouping hLike
      rw [if_neg hParen, if_neg hParen]
      by_cases hOperator : needsLeftOperand t.kind
      · rw [if_pos hOperator, if_pos hOperator]
        exact like_within _ _ (like_prepend (like_report hHead hTail .noLeftOperand) hInner)
      · rw [if_neg hOperator, if_neg hOperator]
        exact like_abandon (.cons hHead hTail) .noExpression

/-- Expressions are read alike, by induction along the descent. -/
theorem like_rule (rule : Rule) (tokens : List Token) :
    ∀ others, List.Forall₂ alike tokens others →
      (rule.run tokens).Like alike (Expr.Like alike alike value) (rule.run others) := by
  induction rule, tokens using Rule.induct with
  | expression tokens ih =>
    intro others hTokens
    show (expression tokens).Like alike _ (expression others)
    rw [expression, expression]
    exact ih others hTokens
  | assignment tokens ihLevel ih =>
    intro others hTokens
    exact like_assignment L (ihLevel others hTokens) fun after after' h => ih after h after'
  | level l tokens ihOperand ih =>
    intro others hTokens
    exact like_level L (ihOperand others hTokens) fun after after' h => ih after h after'
  | operand l tokens ih =>
    intro others hTokens
    show (operand l tokens).Like alike _ (operand l others)
    rw [operand_eq_run_below, operand_eq_run_below]
    exact ih others hTokens
  | unary tokens ihPrimary ih =>
    intro others hTokens
    exact like_unary L hTokens (ihPrimary others hTokens) fun after after' h => ih after h after'
  | primary tokens ih =>
    intro others hTokens
    exact like_primary L hTokens fun after after' h => ih after h after'

theorem like_expression {tokens others : List Token}
    (hTokens : List.Forall₂ alike tokens others) :
    (expression tokens).Like alike (Expr.Like alike alike value) (expression others) :=
  like_rule L .expression tokens others hTokens

-- ---------------------------------------------------------------------------
-- Statements without statements inside
-- ---------------------------------------------------------------------------

theorem like_varDeclaration {tokens others : List Token}
    (hTokens : List.Forall₂ alike tokens others) :
    (varDeclaration tokens).Like alike (Stmt.Like alike alike value) (varDeclaration others) := by
  rw [varDeclaration, varDeclaration]
  refine like_andThen (like_expect L hTokens .identifier .noVariableName) ?_
  intro name name' rest rest' h h' hName hRest
  cases hRest with
  | nil => exact .ranOff .nil
  | @cons t u after after' hHead hTail =>
    dsimp only
    rw [L.kind t u hHead]
    by_cases hEqual : t.kind = .equal
    · rw [if_pos hEqual, if_pos hEqual]
      refine like_within _ _ (like_closed L (like_expression L hTail) ?_)
      intro e e' _ _ he _
      exact .definition hName he
    · rw [if_neg hEqual, if_neg hEqual]
      have hClose := like_expect L (.cons hHead hTail) .semicolon .openDeclaration
      refine like_within _ _ (like_map hClose ?_)
      intro _ _ _
      exact .declaration hName

theorem like_expressionStatement {tokens others : List Token}
    (hTokens : List.Forall₂ alike tokens others) :
    (expressionStatement tokens).Like alike (Stmt.Like alike alike value)
      (expressionStatement others) := by
  refine like_closed L (like_expression L hTokens) ?_
  intro e e' _ _ he _
  exact .expression he

theorem like_printStatement {tokens others : List Token}
    (hTokens : List.Forall₂ alike tokens others) :
    (printStatement tokens).Like alike (Stmt.Like alike alike value) (printStatement others) := by
  refine like_closed L (like_expression L hTokens) ?_
  intro e e' _ _ he _
  exact .print he

theorem like_condition (noParen openParen : Complaint) {tokens others : List Token}
    (hTokens : List.Forall₂ alike tokens others) :
    (condition noParen openParen tokens).Like alike (Expr.Like alike alike value)
      (condition noParen openParen others) := by
  refine like_bind (like_expect L hTokens .leftParen noParen) ?_
  intro _ _ rest rest' h _ hRest _ _
  refine like_closed L (like_expression L hRest) ?_
  intro e e' _ _ he _
  exact he

theorem like_forInitializer {tokens others : List Token}
    (hTokens : List.Forall₂ alike tokens others) :
    (forInitializer tokens).Like alike (Option.Rel (Stmt.Like alike alike value))
      (forInitializer others) := by
  cases hTokens with
  | nil => exact .ranOff .nil
  | @cons t u rest rest' hHead hTail =>
    rw [forInitializer, forInitializer, L.kind t u hHead]
    by_cases hNone : t.kind = .semicolon
    · rw [if_pos hNone, if_pos hNone]
      exact .done .none hTail .nil
    rw [if_neg hNone, if_neg hNone]
    by_cases hVar : t.kind = .varKw
    · rw [if_pos hVar, if_pos hVar]
      exact like_within _ _ (like_map (like_varDeclaration L hTail) fun _ _ => .some)
    · rw [if_neg hVar, if_neg hVar]
      exact like_map (like_expressionStatement L (.cons hHead hTail)) fun _ _ => .some

theorem like_forClause (close : TokenKind) (complaint : Complaint) {tokens others : List Token}
    (hTokens : List.Forall₂ alike tokens others) :
    (forClause close complaint tokens).Like alike (Option.Rel (Expr.Like alike alike value))
      (forClause close complaint others) := by
  cases hTokens with
  | nil => exact .ranOff .nil
  | @cons t u rest rest' hHead hTail =>
    rw [forClause, forClause, L.kind t u hHead]
    by_cases hNone : t.kind = close
    · rw [if_pos hNone, if_pos hNone]
      exact .done .none hTail .nil
    · rw [if_neg hNone, if_neg hNone]
      refine like_closed L (like_expression L (.cons hHead hTail)) ?_
      intro e e' _ _ he _
      exact .some he

omit L in
/-- The heads of two `for` loops with clauses that are alike. -/
structure ForHead.Like (alike : Token → Token → Prop) (value : Value → Value → Prop)
    (head other : ForHead) : Prop where
  initializer : Option.Rel (Stmt.Like alike alike value) head.initializer other.initializer
  condition : Option.Rel (Expr.Like alike alike value) head.condition other.condition
  increment : Option.Rel (Expr.Like alike alike value) head.increment other.increment

theorem like_forHead {tokens others : List Token} (hTokens : List.Forall₂ alike tokens others) :
    (forHead tokens).Like alike (ForHead.Like alike value) (forHead others) := by
  refine like_bind (like_expect L hTokens .leftParen .noForParen) ?_
  intro _ _ rest rest' h _ hRest _ _
  refine like_bind (like_forInitializer L hRest) ?_
  intro initializer initializer' rest rest' h hInitializer hRest _ _
  refine like_bind (like_forClause L .semicolon .openForCondition hRest) ?_
  intro condition condition' rest rest' h hCondition hRest _ _
  refine like_map (like_forClause L .rightParen .openForClauses hRest) ?_
  intro increment increment' hIncrement
  exact ⟨hInitializer, hCondition, hIncrement⟩

/-- A condition that was left out is the same in both loops. -/
theorem like_loop {head head' : ForHead} {body body' : Stmt} (hHead : head.Like alike value head')
    (hBody : body.Like alike alike value body') :
    (head.loop body).Like alike alike value (head'.loop body') := by
  obtain ⟨initializer, condition, increment⟩ := head
  obtain ⟨initializer', condition', increment'⟩ := head'
  obtain ⟨hInitializer, hCondition, hIncrement⟩ := hHead
  have hTest : (condition.getD (.literal (.bool true))).Like alike alike value
      (condition'.getD (.literal (.bool true))) := by
    cases hCondition with
    | none => exact .literal (L.bool true)
    | some he => exact he
  cases hIncrement with
  | none =>
    cases hInitializer with
    | none => exact .whileLoop hTest hBody
    | some hs => exact .block (.cons hs (.cons (.whileLoop hTest hBody) .nil))
  | @some e e' he =>
    have hRound : Stmt.Like alike alike value (.block [body, .expression e])
        (.block [body', .expression e']) := .block (.cons hBody (.cons (.expression he) .nil))
    cases hInitializer with
    | none => exact .whileLoop hTest hRound
    | some hs => exact .block (.cons hs (.cons (.whileLoop hTest hRound) .nil))

-- ---------------------------------------------------------------------------
-- Recovery
-- ---------------------------------------------------------------------------

theorem like_skipFrom {last last' : Token} {tokens others : List Token} (hLast : alike last last')
    (hTokens : List.Forall₂ alike tokens others) :
    Option.Rel (List.Forall₂ alike) (skipFrom last tokens) (skipFrom last' others) := by
  induction hTokens generalizing last last' with
  | nil => exact .none
  | @cons t u rest rest' hHead hTail ih =>
    rw [skipFrom, skipFrom, L.kind t u hHead, L.kind last last' hLast]
    by_cases hStop : t.kind = .eof ∨ last.kind = .semicolon ∨ startsStatement t.kind
    · rw [if_pos hStop, if_pos hStop]
      exact .some (.cons hHead hTail)
    · rw [if_neg hStop, if_neg hStop]
      exact ih hHead

theorem like_synchronize {tokens others : List Token}
    (hTokens : List.Forall₂ alike tokens others) :
    Option.Rel (List.Forall₂ alike) (synchronize tokens) (synchronize others) := by
  cases hTokens with
  | nil => exact .none
  | @cons t u rest rest' hHead hTail =>
    rw [synchronize, synchronize, L.kind t u hHead]
    by_cases hEof : t.kind = .eof
    · rw [if_pos hEof, if_pos hEof]
      exact .some (.cons hHead hTail)
    · rw [if_neg hEof, if_neg hEof]
      exact like_skipFrom L hHead hTail

/-- What is dropped on one side is dropped on the other, up to the same place. -/
theorem like_recover {t u : Token} {tail tail' : List Token} (ht : t.kind ≠ .eof)
    (hu : u.kind ≠ .eof) {s : Step Stmt (t :: tail)} {s' : Step Stmt (u :: tail')}
    (hLike : s.Like alike (Stmt.Like alike alike value) s') :
    (recover ht s).toStep.Like alike (Option.Rel (Stmt.Like alike alike value))
      (recover hu s').toStep := by
  cases hLike with
  | done hValue hRest hReports => exact .done (.some hValue) hRest hReports
  | ranOff hReports => exact .ranOff hReports
  | @abandoned rest rest' reports reports' h h' hRest hReports =>
    have hNext := like_synchronize L hRest
    rw [recover, recover]
    split
    · next hNone =>
      rw [hNone] at hNext
      split
      · exact .ranOff hReports
      · next hSome =>
        rw [hSome] at hNext
        cases hNext
    · next hSome =>
      rw [hSome] at hNext
      split
      · next hNone =>
        rw [hNone] at hNext
        cases hNext
      · next hSome' =>
        rw [hSome'] at hNext
        cases hNext with
        | some hAfter => exact .done .none hAfter hReports

-- ---------------------------------------------------------------------------
-- Statements
-- ---------------------------------------------------------------------------

theorem like_ifStatement {tokens others : List Token} (hTokens : List.Forall₂ alike tokens others)
    (ih : AlikeBelow alike (Stmt.Like alike alike value) statement tokens) :
    (ifStatement tokens).Like alike (Stmt.Like alike alike value) (ifStatement others) := by
  rw [ifStatement, ifStatement]
  refine like_bind (like_condition L .noIfParen .openIfCondition hTokens) ?_
  intro e e' rest rest' hCondition he hRest _ _
  refine like_andThen (ih rest rest' hCondition.2 hRest) ?_
  intro thenBranch thenBranch' after after' h h' hThen hAfter
  cases hAfter with
  | nil => exact .ranOff .nil
  | @cons t u after after' hHead hTail =>
    dsimp only
    rw [L.kind t u hHead]
    by_cases hElse : t.kind = .elseKw
    · rw [if_pos hElse, if_pos hElse]
      have hLess : after.length < tokens.length := Nat.lt_trans h.length_tail_lt hCondition.2
      refine like_within _ _ (like_map (ih after after' hLess hTail) ?_)
      intro elseBranch elseBranch' hBranch
      exact .ifElse he hThen hBranch
    · rw [if_neg hElse, if_neg hElse]
      exact .done (.ifThen he hThen) (.cons hHead hTail) .nil

theorem like_whileStatement {tokens others : List Token}
    (hTokens : List.Forall₂ alike tokens others)
    (ih : AlikeBelow alike (Stmt.Like alike alike value) statement tokens) :
    (whileStatement tokens).Like alike (Stmt.Like alike alike value) (whileStatement others) := by
  rw [whileStatement, whileStatement]
  refine like_bind (like_condition L .noWhileParen .openWhileCondition hTokens) ?_
  intro e e' rest rest' h he hRest _ _
  refine like_map (ih rest rest' h.2 hRest) ?_
  intro body body' hBody
  exact .whileLoop he hBody

theorem like_forStatement {tokens others : List Token}
    (hTokens : List.Forall₂ alike tokens others)
    (ih : AlikeBelow alike (Stmt.Like alike alike value) statement tokens) :
    (forStatement tokens).Like alike (Stmt.Like alike alike value) (forStatement others) := by
  rw [forStatement, forStatement]
  refine like_bind (like_forHead L hTokens) ?_
  intro head head' rest rest' h hHead hRest _ _
  refine like_map (ih rest rest' h.2 hRest) ?_
  intro body body' hBody
  exact like_loop L hHead hBody

theorem like_declaration_of_statement {t u : Token} {tail tail' : List Token} (ht : t.kind ≠ .eof)
    (hu : u.kind ≠ .eof) (hHead : alike t u) (hTail : List.Forall₂ alike tail tail')
    (h : (statement (t :: tail)).Like alike (Stmt.Like alike alike value)
      (statement (u :: tail'))) :
    (declaration t tail ht).toStep.Like alike (Option.Rel (Stmt.Like alike alike value))
      (declaration u tail' hu).toStep := by
  rw [declaration, declaration, L.kind t u hHead]
  by_cases hVar : t.kind = .varKw
  · rw [if_pos hVar, if_pos hVar]
    exact like_recover L ht hu (like_within _ _ (like_varDeclaration L hTail))
  · rw [if_neg hVar, if_neg hVar]
    exact like_recover L ht hu h

omit L in
/-- Declarations, if they were not dropped, in front of others. -/
theorem allLike_toList_append {s? s'? : Option Stmt} {rest rest' : List Stmt}
    (hFirst : Option.Rel (Stmt.Like alike alike value) s? s'?)
    (hRest : Stmt.AllLike alike alike value rest rest') :
    Stmt.AllLike alike alike value (s?.toList ++ rest) (s'?.toList ++ rest') := by
  cases hFirst with
  | none => exact hRest
  | some hs => exact .cons hs hRest

/-- Statements and blocks are read alike, by induction on how many tokens are left. -/
theorem like_statement_and_block : ∀ tokens,
    (∀ others, List.Forall₂ alike tokens others →
      (statement tokens).Like alike (Stmt.Like alike alike value) (statement others)) ∧
    (∀ others, List.Forall₂ alike tokens others →
      (block tokens).Like alike (Stmt.AllLike alike alike value) (block others)) := by
  apply statement_induct
  case statement =>
    intro tokens ihStatement ihBlock others hTokens
    cases hTokens with
    | nil =>
      rw [statement]
      exact .ranOff .nil
    | @cons t u rest rest' hHead hTail =>
      have ih : AlikeBelow alike (Stmt.Like alike alike value) statement rest := by
        intro after after' h
        exact ihStatement after (Nat.lt_succ_of_lt h) after'
      rw [statement, statement, L.kind t u hHead]
      cases t.kind
      case forKw => exact like_within _ _ (like_forStatement L hTail ih)
      case ifKw => exact like_within _ _ (like_ifStatement L hTail ih)
      case printKw => exact like_within _ _ (like_printStatement L hTail)
      case whileKw => exact like_within _ _ (like_whileStatement L hTail ih)
      case leftBrace =>
        have hBody := ihBlock rest (Nat.lt_succ_self _) rest' hTail
        exact like_within _ _ (like_map hBody fun _ _ => .block)
      all_goals exact like_expressionStatement L (.cons hHead hTail)
  case block =>
    intro tokens ihStatement ihBlock others hTokens
    cases hTokens with
    | nil =>
      rw [block]
      exact .ranOff .nil
    | @cons t u rest rest' hHead hTail =>
      have hKind : u.kind = t.kind := L.kind t u hHead
      rw [block, block]
      by_cases hClose : t.kind = .rightBrace
      · rw [if_pos hClose, if_pos (hKind.trans hClose)]
        exact .done .nil hTail .nil
      have hClose' : u.kind ≠ .rightBrace := L.kind_ne hHead hClose
      rw [if_neg hClose, if_neg hClose']
      by_cases ht : t.kind = .eof
      · rw [dif_pos ht, dif_pos (hKind.trans ht)]
        exact like_abandon (.cons hHead hTail) .openBlock
      have hu : u.kind ≠ .eof := L.kind_ne hHead ht
      rw [dif_neg ht, dif_neg hu]
      have hStatement := ihStatement (u :: rest') (.cons hHead hTail)
      refine like_bind (like_declaration_of_statement L ht hu hHead hTail hStatement) ?_
      intro s? s'? after after' h hFirst hAfter _ _
      refine like_map (ihBlock after h.2 after' hAfter) ?_
      intro more more' hMore
      exact allLike_toList_append hFirst hMore

theorem like_declaration {t u : Token} {tail tail' : List Token} (ht : t.kind ≠ .eof)
    (hu : u.kind ≠ .eof) (hHead : alike t u) (hTail : List.Forall₂ alike tail tail') :
    (declaration t tail ht).toStep.Like alike (Option.Rel (Stmt.Like alike alike value))
      (declaration u tail' hu).toStep :=
  like_declaration_of_statement L ht hu hHead hTail
    ((like_statement_and_block L (t :: tail)).1 (u :: tail') (.cons hHead hTail))

-- ---------------------------------------------------------------------------
-- Programs
-- ---------------------------------------------------------------------------

omit L in
/-- Programs with statements, reports and an end that are alike. -/
structure Program.Like (alike : Token → Token → Prop) (value : Value → Value → Prop)
    (p q : Program) : Prop where
  statements : Stmt.AllLike alike alike value p.statements q.statements
  reports : List.Forall₂ (Report.Like alike) p.reports q.reports
  rest : List.Forall₂ alike p.rest q.rest

/-- Tokens that are alike at every place are read as programs that are alike. -/
theorem like_program {tokens others : List Token} (hTokens : List.Forall₂ alike tokens others) :
    (program tokens).Like alike value (program others) := by
  induction tokens using program.induct generalizing others with
  | case1 =>
    cases hTokens
    rw [program]
    exact ⟨.nil, .nil, .nil⟩
  | case2 t tail ht =>
    cases hTokens with
    | @cons _ u _ tail' hHead hTail =>
      have hu : u.kind = .eof := (L.kind t u hHead).trans ht
      rw [program, program, dif_pos ht, dif_pos hu]
      exact ⟨.nil, .nil, .cons hHead hTail⟩
  | case3 t tail ht s? rest reports hr hDone ih =>
    cases hTokens with
    | @cons _ u _ tail' hHead hTail =>
      have hu : u.kind ≠ .eof := L.kind_ne hHead ht
      have hFirst := like_declaration L ht hu hHead hTail
      rw [hDone] at hFirst
      rw [program, program, dif_neg ht, dif_neg hu, hDone]
      generalize declaration u tail' hu = other at hFirst ⊢
      cases other with
      | ranOff reports' => cases hFirst
      | done s'? rest' reports' hr' =>
        cases hFirst with
        | done hValue hRest hReports =>
          have hMore := ih hRest
          exact ⟨allLike_toList_append hValue hMore.statements,
            List.rel_append hReports hMore.reports, hMore.rest⟩
  | case4 t tail ht reports hRanOff =>
    cases hTokens with
    | @cons _ u _ tail' hHead hTail =>
      have hu : u.kind ≠ .eof := L.kind_ne hHead ht
      have hFirst := like_declaration L ht hu hHead hTail
      rw [hRanOff] at hFirst
      rw [program, program, dif_neg ht, dif_neg hu, hRanOff]
      generalize declaration u tail' hu = other at hFirst ⊢
      cases other with
      | done s'? rest' reports' hr' => cases hFirst
      | ranOff reports' =>
        cases hFirst with
        | ranOff hReports => exact ⟨.nil, hReports, .nil⟩

end

end Scriptlet.Parse
