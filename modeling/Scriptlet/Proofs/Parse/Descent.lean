import Scriptlet.Parse.Statement

/-!
# Scriptlet — induction along the descent

The rules that read an expression call each other either on fewer tokens or, on
the same tokens, at a tighter level of the grammar. The rules that read
statements call each other on fewer tokens, except that a block starts with the
declaration in front of it. Both facts are turned here into induction
principles, with one case for each rule, so that nothing proved about the rules
has to deal with the measure by which they end.

## Results

* `Rule`, `Rule.run`  — the rules that read an expression, as one family.
* `Rule.induct`       — induction over the rules and the tokens.
* `statement_induct`  — induction over statements and blocks.
-/

namespace Scriptlet.Parse

/-- Behind the next token there are fewer tokens. -/
theorem Shorter.length_tail_lt {t : Token} {rest tokens : List Token}
    (h : Shorter (t :: rest) tokens) : rest.length < tokens.length := by
  have hLess := h.2
  rw [List.length_cons] at hLess
  omega

-- ---------------------------------------------------------------------------
-- Expressions
-- ---------------------------------------------------------------------------

/-- The rules that read an expression. -/
inductive Rule where
  | expression
  | assignment
  | level (l : Level)
  | operand (l : Level)
  | unary
  | primary

/-- Runs a rule. -/
def Rule.run : Rule → (tokens : List Token) → Step Expr tokens
  | expression => Parse.expression
  | assignment => Parse.assignment
  | level l => Parse.level l
  | operand l => Parse.operand l
  | unary => Parse.unary
  | primary => Parse.primary

/-- The rule that reads the operands of a level. -/
def Level.below (l : Level) : Rule := l.tighter.elim .unary .level

theorem operand_eq_run_below (l : Level) (tokens : List Token) :
    operand l tokens = l.below.run tokens := by
  rw [operand]
  cases l <;> rfl

/--
Induction along the descent: a rule may assume the property of the rule below it
on the same tokens, and of every rule on fewer tokens.
-/
theorem Rule.induct {motive : Rule → List Token → Prop}
    (expression : ∀ tokens, motive .assignment tokens → motive .expression tokens)
    (assignment : ∀ tokens, motive (.level .or) tokens →
      (∀ after, after.length < tokens.length → motive .assignment after) →
      motive .assignment tokens)
    (level : ∀ l tokens, motive (.operand l) tokens →
      (∀ after, after.length < tokens.length → motive (.operand l) after) →
      motive (.level l) tokens)
    (operand : ∀ l tokens, motive l.below tokens → motive (.operand l) tokens)
    (unary : ∀ tokens, motive .primary tokens →
      (∀ after, after.length < tokens.length → motive .unary after) → motive .unary tokens)
    (primary : ∀ tokens,
      (∀ after, after.length < tokens.length → motive .expression after) →
      motive .primary tokens) :
    ∀ rule tokens, motive rule tokens := by
  intro rule tokens
  induction hn : tokens.length using Nat.strongRecOn generalizing rule tokens with
  | ind n ih =>
    subst hn
    have ih : ∀ rule after, after.length < tokens.length → motive rule after :=
      fun rule after h => ih after.length h rule after rfl
    -- from the tightest rule outwards, each rests on the one before it
    have hPrimary := primary tokens (ih .expression)
    have hUnary := unary tokens hPrimary (ih .unary)
    have step : ∀ l, motive (Level.below l) tokens → motive (.level l) tokens :=
      fun l h => level l tokens (operand l tokens h) (ih (.operand l))
    have hFactor := step .factor hUnary
    have hTerm := step .term hFactor
    have hComparison := step .comparison hTerm
    have hEquality := step .equality hComparison
    have hAnd := step .and hEquality
    have hOr := step .or hAnd
    have hAssignment := assignment tokens hOr (ih .assignment)
    have hLevel : ∀ l, motive (.level l) tokens := by
      intro l
      cases l <;> assumption
    have hBelow : ∀ l : Level, motive l.below tokens := by
      intro l
      cases l <;> assumption
    cases rule with
    | expression => exact expression tokens hAssignment
    | assignment => exact hAssignment
    | level l => exact hLevel l
    | operand l => exact operand l tokens (hBelow l)
    | unary => exact hUnary
    | primary => exact hPrimary

-- ---------------------------------------------------------------------------
-- Statements
-- ---------------------------------------------------------------------------

/--
Induction over statements and blocks: both may assume the two properties on
fewer tokens, and a block that of a statement on the same tokens.
-/
theorem statement_induct {onStatement onBlock : List Token → Prop}
    (statement : ∀ tokens,
      (∀ after, after.length < tokens.length → onStatement after) →
      (∀ after, after.length < tokens.length → onBlock after) → onStatement tokens)
    (block : ∀ tokens, onStatement tokens →
      (∀ after, after.length < tokens.length → onBlock after) → onBlock tokens) :
    ∀ tokens, onStatement tokens ∧ onBlock tokens := by
  intro tokens
  induction hn : tokens.length using Nat.strongRecOn generalizing tokens with
  | ind n ih =>
    subst hn
    have hStatement : onStatement tokens :=
      statement tokens (fun after h => (ih after.length h after rfl).1)
        fun after h => (ih after.length h after rfl).2
    exact ⟨hStatement, block tokens hStatement fun after h => (ih after.length h after rfl).2⟩

end Scriptlet.Parse
