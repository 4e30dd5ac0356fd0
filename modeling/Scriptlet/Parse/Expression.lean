import Scriptlet.Parse.Step
import Scriptlet.Tree.Basic

/-!
# Scriptlet — reading expressions

Recursive descent over a list of tokens. Every function reads one construct from
the front of the list, looks one token ahead, and calls another either on fewer
tokens or at a tighter level of the grammar; that pair is the measure by which
the descent ends.

    expression  = assignment
    assignment  = or ("=" assignment)?
    or, and, equality, comparison, term, factor: chains of the next level
    unary       = ("!" | "-") unary | primary
    primary     = number | string | "true" | "false" | "nil" | identifier
                | "(" expression ")"

Two mistakes are complained about without giving the expression up: a target
that cannot be assigned to, and a binary operator without a left operand.

## Results

* `Level`                   — the levels of the binary operators.
* `expression`              — an expression.
* `assignment`, `level`, `operand`, `chain`, `unary`, `primary` — the rules below it.
-/

namespace Scriptlet.Parse

-- ---------------------------------------------------------------------------
-- Operators
-- ---------------------------------------------------------------------------

/-- The levels of the binary operators, the loosest first. -/
inductive Level where
  | or | and | equality | comparison | term | factor
  deriving DecidableEq, Repr

namespace Level

/-- The operators of a level. -/
def operators : Level → List TokenKind
  | or => [.orKw]
  | and => [.andKw]
  | equality => [.bangEqual, .equalEqual]
  | comparison => [.greater, .greaterEqual, .less, .lessEqual]
  | term => [.minus, .plus]
  | factor => [.slash, .star]

/-- The next tighter level; the operands of the tightest are unary expressions. -/
def tighter : Level → Option Level
  | or => some and
  | and => some equality
  | equality => some comparison
  | comparison => some term
  | term => some factor
  | factor => none

/-- How many levels are tighter. -/
def depth : Level → Nat
  | or => 5
  | and => 4
  | equality => 3
  | comparison => 2
  | term => 1
  | factor => 0

/-- The node of an operator of a level and its operands. -/
def node : Level → Expr → Token → Expr → Expr
  | or | and => .logical
  | _ => .binary

theorem depth_tighter {level next : Level} (h : level.tighter = some next) :
    next.depth < level.depth := by
  cases level <;> simp only [tighter, Option.some.injEq, reduceCtorEq] at h <;> subst h <;> decide

end Level

/-- Binary operators that cannot start an operand. -/
def needsLeftOperand (kind : TokenKind) : Bool :=
  [.bangEqual, .equal, .equalEqual, .greater, .greaterEqual, .less, .lessEqual, .plus, .slash,
    .star].contains kind

/-- The value that a token stands for as an expression by itself. -/
def literalOf? (t : Token) : Option Value :=
  match t.kind with
  | .trueKw => some (.bool true)
  | .falseKw => some (.bool false)
  | .nilKw => some .nil
  | .number | .string => some t.literal
  | _ => none

-- ---------------------------------------------------------------------------
-- Expressions
-- ---------------------------------------------------------------------------

/-- What a variable becomes when a value is assigned to it; nothing else can be assigned to. -/
def assignTo? : Expr → Expr → Option Expr
  | .variable name, value => some (.assign name value)
  | _, _ => none

mutual

/-- An expression. -/
def expression (tokens : List Token) : Step Expr tokens := assignment tokens
termination_by 32 * tokens.length + 21
decreasing_by omega

/--
An assignment, or an expression without one. The target is read first and looked
at afterwards; one that is no variable is complained about and kept.
-/
def assignment (tokens : List Token) : Step Expr tokens :=
  (level .or tokens).andThen fun target rest h =>
    match rest, h with
    | [], _ => .ranOff []
    | t :: after, h =>
      if t.kind = .equal then
        ((assignment after).andThen fun value rest h =>
          match assignTo? target value with
          | some e => .done e rest [] h
          | none => .done target rest [report t after .invalidTarget] h).within h.tail
      else .done target (t :: after) [] h
termination_by 32 * tokens.length + 20
decreasing_by
  · simp only [Level.depth]
    omega
  · have := h.2
    simp only [List.length_cons] at this
    omega

/-- Operands of a level with its operators between them. -/
def level (l : Level) (tokens : List Token) : Step Expr tokens :=
  (operand l tokens).andThen fun left rest h => chain l left rest h
termination_by 32 * tokens.length + 2 * l.depth + 4
decreasing_by
  · omega
  · have := h.2
    omega

/-- An operand of a level: a chain of the next tighter one, or a unary expression. -/
def operand (l : Level) (tokens : List Token) : Step Expr tokens :=
  match _h : l.tighter with
  | some next => level next tokens
  | none => unary tokens
termination_by 32 * tokens.length + 2 * l.depth + 3
decreasing_by
  · have := Level.depth_tighter _h
    omega
  · omega

/-- Takes up further operators of a level, each with its right operand, from left to right. -/
def chain {tokens : List Token} (l : Level) (left : Expr) (rest : List Token)
    (h : Shorter rest tokens) : Step Expr tokens :=
  match rest, h with
  | [], _ => .ranOff []
  | t :: after, h =>
    if l.operators.contains t.kind then
      ((operand l after).andThen fun right rest h => chain l (l.node left t right) rest h).within
        h.tail
    else .done left (t :: after) [] h
termination_by 32 * rest.length
decreasing_by
  · simp only [List.length_cons]
    have : l.depth ≤ 5 := by cases l <;> decide
    omega
  · have := h.2
    simp only [List.length_cons]
    omega

/-- A unary operator and its operand, or an expression without one. -/
def unary (tokens : List Token) : Step Expr tokens :=
  match tokens with
  | [] => .ranOff []
  | t :: rest =>
    if t.kind = .bang ∨ t.kind = .minus then
      ((unary rest).map (.unary t)).within (List.suffix_cons t rest)
    else primary (t :: rest)
termination_by 32 * tokens.length + 2
decreasing_by
  · simp only [List.length_cons]
    omega
  · omega

/-- An expression that no operator is part of, or a complaint. -/
def primary (tokens : List Token) : Step Expr tokens :=
  match tokens with
  | [] => .ranOff []
  | t :: rest =>
    match literalOf? t with
    | some value => .done (.literal value) rest [] (shorter_tail t rest)
    | none =>
      if t.kind = .identifier then .done (.variable t) rest [] (shorter_tail t rest)
      else if t.kind = .leftParen then
        ((expression rest).bind fun inner rest _ =>
          (expect .rightParen .openGroup rest).map fun _ => .grouping inner).within
          (List.suffix_cons t rest)
      else if needsLeftOperand t.kind then
        ((expression rest).prepend [report t rest .noLeftOperand]).within (List.suffix_cons t rest)
      else abandon .noExpression (t :: rest)
termination_by 32 * tokens.length + 1
decreasing_by
  · simp only [List.length_cons]
    omega
  · simp only [List.length_cons]
    omega

end

end Scriptlet.Parse
