import Scriptlet.Proofs.Tree.Likeness
import Scriptlet.Proofs.Tree.Proper

/-!
# Scriptlet — outlines of trees

An outline is a tree without its tokens: where a tree has a token or the literal
of one, the outline has a place. Filled with the tokens of a list it becomes a
tree again, if all its places are places of the list. What it may hold besides
is the same for all lists: true, false and nil.

Numbered tokens know their place and nothing else, so a tree of numbered tokens
has an outline. A tree like it, but with the tokens that stand at those places of
a list, is the outline filled with that list.

## Results

* `ExprOutline`, `StmtOutline` — outlines, and `fill?`, which fills them.
* `Token.numbered`          — a token that knows its place.
* `Expr.outline`, `Stmt.outline` — the outline of a tree of numbered tokens.
* `fill?_outline`, `fillAll?_outlineAll` — an outline filled with the tokens at its places.
-/

namespace Scriptlet

-- ---------------------------------------------------------------------------
-- Outlines
-- ---------------------------------------------------------------------------

/-- An expression with places instead of tokens. -/
inductive ExprOutline where
  | truth (b : Bool)
  | nil
  /-- The literal of the token at a place. -/
  | literal (place : Nat)
  | grouping (inner : ExprOutline)
  | unary (operator : Nat) (operand : ExprOutline)
  | binary (left : ExprOutline) (operator : Nat) (right : ExprOutline)
  | logical (left : ExprOutline) (operator : Nat) (right : ExprOutline)
  | variable (name : Nat)
  | assign (name : Nat) (value : ExprOutline)
  deriving DecidableEq, Repr

/-- A statement with places instead of tokens. -/
inductive StmtOutline where
  | expression (e : ExprOutline)
  | print (e : ExprOutline)
  | varDecl (name : Nat) (initializer : Option ExprOutline)
  | block (body : List StmtOutline)
  | ifElse (condition : ExprOutline) (thenBranch : StmtOutline) (elseBranch : Option StmtOutline)
  | whileLoop (condition : ExprOutline) (body : StmtOutline)

/-- The expression with the tokens of a list at the places of the outline. -/
def ExprOutline.fill? (tokens : List Token) : ExprOutline → Option Expr
  | truth b => some (.literal (.bool b))
  | nil => some (.literal .nil)
  | literal place => do return .literal (← tokens[place]?).literal
  | grouping inner => do return .grouping (← inner.fill? tokens)
  | unary operator operand => do return .unary (← tokens[operator]?) (← operand.fill? tokens)
  | binary left operator right => do
    return .binary (← left.fill? tokens) (← tokens[operator]?) (← right.fill? tokens)
  | logical left operator right => do
    return .logical (← left.fill? tokens) (← tokens[operator]?) (← right.fill? tokens)
  | .variable name => do return .variable (← tokens[name]?)
  | assign name value => do return .assign (← tokens[name]?) (← value.fill? tokens)

mutual

/-- The statement with the tokens of a list at the places of the outline. -/
def StmtOutline.fill? (tokens : List Token) : StmtOutline → Option Stmt
  | expression e => do return .expression (← e.fill? tokens)
  | print e => do return .print (← e.fill? tokens)
  | varDecl name none => do return .varDecl (← tokens[name]?) none
  | varDecl name (some e) => do return .varDecl (← tokens[name]?) (some (← e.fill? tokens))
  | block body => do return .block (← StmtOutline.fillAll? tokens body)
  | ifElse condition thenBranch none => do
    return .ifElse (← condition.fill? tokens) (← thenBranch.fill? tokens) none
  | ifElse condition thenBranch (some elseBranch) => do
    return .ifElse (← condition.fill? tokens) (← thenBranch.fill? tokens)
      (some (← elseBranch.fill? tokens))
  | whileLoop condition body => do
    return .whileLoop (← condition.fill? tokens) (← body.fill? tokens)

/-- Statements with the tokens of a list at the places of their outlines. -/
def StmtOutline.fillAll? (tokens : List Token) : List StmtOutline → Option (List Stmt)
  | [] => some []
  | s :: rest => do return (← s.fill? tokens) :: (← StmtOutline.fillAll? tokens rest)

end

-- ---------------------------------------------------------------------------
-- Numbered tokens
-- ---------------------------------------------------------------------------

/-- A literal that knows the place of its token: a text of that length. -/
def Value.numbered (place : Nat) : Value := .text (String.ofList (List.replicate place ' '))

/-- A token that knows its place. -/
def Token.numbered (place : Nat) (kind : TokenKind) : Token where
  kind := kind
  lexeme := ""
  literal := .numbered place
  line := place

/-- The place that a numbered token knows. -/
def Token.place (t : Token) : Nat := t.line.toNat

@[simp] theorem Token.place_numbered (place : Nat) (kind : TokenKind) :
    (Token.numbered place kind).place = place := Int.toNat_natCast place

/-- The outline of a literal: the place that it knows, if it is a text. -/
def Value.outline : Value → ExprOutline
  | .bool b => .truth b
  | .text s => .literal s.length
  | .nil | .number _ => .nil

@[simp] theorem Value.outline_numbered (place : Nat) :
    (Value.numbered place).outline = .literal place := by
  simp [Value.numbered, Value.outline]

/-- The outline of an expression of numbered tokens. -/
def Expr.outline : Expr → ExprOutline
  | literal value => value.outline
  | grouping inner => .grouping inner.outline
  | unary o operand => .unary o.place operand.outline
  | binary left o right => .binary left.outline o.place right.outline
  | logical left o right => .logical left.outline o.place right.outline
  | .variable n => .variable n.place
  | assign n value => .assign n.place value.outline
  | stray _ => .nil

mutual

/-- The outline of a statement of numbered tokens. -/
def Stmt.outline : Stmt → StmtOutline
  | expression e => .expression e.outline
  | print e => .print e.outline
  | varDecl n none => .varDecl n.place none
  | varDecl n (some e) => .varDecl n.place (some e.outline)
  | block body => .block (Stmt.outlineAll body)
  | ifElse condition thenBranch none => .ifElse condition.outline thenBranch.outline none
  | ifElse condition thenBranch (some elseBranch) =>
    .ifElse condition.outline thenBranch.outline (some elseBranch.outline)
  | whileLoop condition body => .whileLoop condition.outline body.outline
  | stray _ => .block []

/-- The outlines of statements of numbered tokens. -/
def Stmt.outlineAll : List Stmt → List StmtOutline
  | [] => []
  | s :: rest => s.outline :: Stmt.outlineAll rest

end

-- ---------------------------------------------------------------------------
-- Filled outlines
-- ---------------------------------------------------------------------------

/-- A numbered token stands for the token at its place, which is of the same kind. -/
def Token.StandsFor (tokens : List Token) (n t : Token) : Prop :=
  ∃ place, n = .numbered place t.kind ∧ tokens[place]? = some t

/-- A numbered literal stands for that of the token at its place, and what is no text for itself. -/
inductive Value.StandsFor (tokens : List Token) : Value → Value → Prop where
  | bool (b : Bool) : StandsFor tokens (.bool b) (.bool b)
  | nil : StandsFor tokens .nil .nil
  | numbered {place : Nat} {t : Token} (h : tokens[place]? = some t) :
      StandsFor tokens (.numbered place) t.literal

section

variable {tokens : List Token}

theorem Token.StandsFor.getElem?_place {n t : Token} (h : n.StandsFor tokens t) :
    tokens[n.place]? = some t := by
  obtain ⟨place, rfl, hPlace⟩ := h
  rwa [Token.place_numbered]

theorem Value.StandsFor.fill?_outline {v w : Value} (h : v.StandsFor tokens w) :
    v.outline.fill? tokens = some (.literal w) := by
  cases h with
  | bool b => rfl
  | nil => rfl
  | numbered hPlace => simp [ExprOutline.fill?, hPlace]

/-- Trees that stand for each other leaf by leaf, the first of numbered tokens. -/
abbrev Expr.StandsFor (tokens : List Token) (e e' : Expr) : Prop :=
  e.Like (Token.StandsFor tokens) (Token.StandsFor tokens) (Value.StandsFor tokens) e'

/-- Statements that stand for each other leaf by leaf, the first of numbered tokens. -/
abbrev Stmt.StandsFor (tokens : List Token) (s s' : Stmt) : Prop :=
  s.Like (Token.StandsFor tokens) (Token.StandsFor tokens) (Value.StandsFor tokens) s'

theorem Expr.fill?_outline {e e' : Expr} (h : e.StandsFor tokens e')
    (hProper : e.Proper) : e.outline.fill? tokens = some e' := by
  induction h with
  | literal hValue => exact hValue.fill?_outline
  | grouping _ ih => simp [outline, ExprOutline.fill?, ih hProper]
  | unary ho _ ih => simp [outline, ExprOutline.fill?, ho.getElem?_place, ih hProper.2]
  | binary ho _ _ ihLeft ihRight =>
    obtain ⟨-, hLeft, hRight⟩ := hProper
    simp [outline, ExprOutline.fill?, ho.getElem?_place, ihLeft hLeft, ihRight hRight]
  | logical ho _ _ ihLeft ihRight =>
    obtain ⟨-, hLeft, hRight⟩ := hProper
    simp [outline, ExprOutline.fill?, ho.getElem?_place, ihLeft hLeft, ihRight hRight]
  | «variable» hn => simp [outline, ExprOutline.fill?, hn.getElem?_place]
  | assign hn _ ih => simp [outline, ExprOutline.fill?, hn.getElem?_place, ih hProper.2]
  | stray node => exact hProper.elim

mutual

theorem Stmt.fill?_outline : (s : Stmt) → {s' : Stmt} → s.StandsFor tokens s' →
    s.Proper → s.outline.fill? tokens = some s'
  | .expression e, _, h, hProper => by
    cases h with
    | expression h => simp [Stmt.outline, StmtOutline.fill?, Expr.fill?_outline h hProper]
  | .print e, _, h, hProper => by
    cases h with
    | print h => simp [Stmt.outline, StmtOutline.fill?, Expr.fill?_outline h hProper]
  | .varDecl n none, _, h, _ => by
    cases h with
    | declaration hn => simp [Stmt.outline, StmtOutline.fill?, hn.getElem?_place]
  | .varDecl n (some e), _, h, hProper => by
    cases h with
    | definition hn hValue =>
      simp [Stmt.outline, StmtOutline.fill?, hn.getElem?_place, Expr.fill?_outline hValue hProper.2]
  | .block body, _, h, hProper => by
    cases h with
    | block hBody =>
      have hFilled := Stmt.fillAll?_outlineAll body hBody hProper
      simp [Stmt.outline, StmtOutline.fill?, hFilled]
  | .ifElse condition thenBranch none, _, h, hProper => by
    cases h with
    | ifThen hCondition hThen =>
      obtain ⟨hTest, hBranch⟩ := hProper
      have hFilled := Stmt.fill?_outline thenBranch hThen hBranch
      simp [Stmt.outline, StmtOutline.fill?, Expr.fill?_outline hCondition hTest, hFilled]
  | .ifElse condition thenBranch (some elseBranch), _, h, hProper => by
    cases h with
    | ifElse hCondition hThen hElse =>
      obtain ⟨hTest, hBranch, hOther⟩ := hProper
      have hFilled := Stmt.fill?_outline thenBranch hThen hBranch
      have hFilledElse := Stmt.fill?_outline elseBranch hElse hOther
      simp [Stmt.outline, StmtOutline.fill?, Expr.fill?_outline hCondition hTest, hFilled, hFilledElse]
  | .whileLoop condition body, _, h, hProper => by
    cases h with
    | whileLoop hCondition hBody =>
      obtain ⟨hTest, hInner⟩ := hProper
      have hFilled := Stmt.fill?_outline body hBody hInner
      simp [Stmt.outline, StmtOutline.fill?, Expr.fill?_outline hCondition hTest, hFilled]
  | .stray node, _, _, hProper => hProper.elim

theorem Stmt.fillAll?_outlineAll : (statements : List Stmt) → {others : List Stmt} →
    List.Forall₂ (Stmt.StandsFor tokens) statements others → Stmt.AllProper statements →
      StmtOutline.fillAll? tokens (Stmt.outlineAll statements) = some others
  | [], _, h, _ => by
    cases h
    rfl
  | s :: rest, _, h, hProper => by
    cases h with
    | cons hFirst hRest =>
      have hFilled := Stmt.fill?_outline s hFirst hProper.1
      have hMore := Stmt.fillAll?_outlineAll rest hRest hProper.2
      simp [Stmt.outlineAll, StmtOutline.fillAll?, hFilled, hMore]

end

end

end Scriptlet
