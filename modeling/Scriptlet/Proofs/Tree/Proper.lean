import Scriptlet.Tree.Dump

/-!
# Scriptlet — proper trees

A tree is proper if everything in it is something that can be run: no node is
out of place, every operator is one that its node can be evaluated with, and
every name is an identifier. A proper tree has a dump.

## Results

* `Expr.Proper`, `Stmt.Proper`, `Stmt.AllProper` — proper trees.
* `Stmt.Proper.dump`        — every proper statement has a dump.
-/

namespace Scriptlet

-- ---------------------------------------------------------------------------
-- Proper trees
-- ---------------------------------------------------------------------------

/-- The kinds of the operators that a binary node can be evaluated with. -/
def binaryKinds : List TokenKind :=
  [.equalEqual, .bangEqual, .plus, .greater, .greaterEqual, .less, .lessEqual, .minus, .star,
    .slash]

/-- Every operator of the expression can be evaluated and every name is an identifier. -/
def Expr.Proper : Expr → Prop
  | literal _ => True
  | grouping inner => inner.Proper
  | unary operator operand => (operator.kind = .bang ∨ operator.kind = .minus) ∧ operand.Proper
  | binary left operator right => operator.kind ∈ binaryKinds ∧ left.Proper ∧ right.Proper
  | logical left operator right =>
    (operator.kind = .andKw ∨ operator.kind = .orKw) ∧ left.Proper ∧ right.Proper
  | .variable name => name.kind = .identifier
  | assign name value => name.kind = .identifier ∧ value.Proper
  | stray _ => False

mutual

/-- Everything in the statement is proper. -/
def Stmt.Proper : Stmt → Prop
  | expression e => e.Proper
  | print e => e.Proper
  | varDecl name none => name.kind = .identifier
  | varDecl name (some e) => name.kind = .identifier ∧ e.Proper
  | block body => Stmt.AllProper body
  | ifElse condition thenBranch none => condition.Proper ∧ thenBranch.Proper
  | ifElse condition thenBranch (some elseBranch) =>
    condition.Proper ∧ thenBranch.Proper ∧ elseBranch.Proper
  | whileLoop condition body => condition.Proper ∧ body.Proper
  | stray _ => False

/-- All the statements are proper. -/
def Stmt.AllProper : List Stmt → Prop
  | [] => True
  | s :: rest => s.Proper ∧ Stmt.AllProper rest

end

namespace Stmt

theorem AllProper.mem {statements : List Stmt} (h : AllProper statements) {s : Stmt}
    (hs : s ∈ statements) : s.Proper := by
  induction statements with
  | nil => cases hs
  | cons first rest ih =>
    obtain ⟨hFirst, hRest⟩ := h
    rcases List.mem_cons.mp hs with hEq | hMem
    · rw [hEq]
      exact hFirst
    · exact ih hRest hMem

end Stmt

-- ---------------------------------------------------------------------------
-- Dumps
-- ---------------------------------------------------------------------------

theorem Expr.Proper.dump {e : Expr} (h : e.Proper) : ∃ text, e.dump = .ok text := by
  induction e with
  | literal value => exact ⟨_, rfl⟩
  | grouping inner ih =>
    obtain ⟨text, hText⟩ := ih h
    refine ⟨form "group" [text], ?_⟩
    rw [Expr.dump, hText]
    rfl
  | unary operator operand ih =>
    obtain ⟨text, hText⟩ := ih h.2
    refine ⟨form operator.lexeme [text], ?_⟩
    rw [Expr.dump, hText]
    rfl
  | binary left operator right ihLeft ihRight =>
    obtain ⟨a, ha⟩ := ihLeft h.2.1
    obtain ⟨b, hb⟩ := ihRight h.2.2
    refine ⟨form operator.lexeme [a, b], ?_⟩
    rw [Expr.dump, ha, hb]
    rfl
  | logical left operator right ihLeft ihRight =>
    obtain ⟨a, ha⟩ := ihLeft h.2.1
    obtain ⟨b, hb⟩ := ihRight h.2.2
    refine ⟨form operator.lexeme [a, b], ?_⟩
    rw [Expr.dump, ha, hb]
    rfl
  | «variable» name => exact ⟨_, rfl⟩
  | assign name value ih =>
    obtain ⟨text, hText⟩ := ih h.2
    refine ⟨form ("assign " ++ name.lexeme) [text], ?_⟩
    rw [Expr.dump, hText]
    rfl
  | stray node => exact h.elim

mutual

theorem Stmt.Proper.dump : (s : Stmt) → s.Proper → ∃ text, s.dump = .ok text
  | .expression e, h => by
    obtain ⟨text, hText⟩ := Expr.Proper.dump h
    refine ⟨form "expr" [text], ?_⟩
    rw [Stmt.dump, hText]
    rfl
  | .print e, h => by
    obtain ⟨text, hText⟩ := Expr.Proper.dump h
    refine ⟨form "print" [text], ?_⟩
    rw [Stmt.dump, hText]
    rfl
  | .varDecl name none, h => ⟨_, rfl⟩
  | .varDecl name (some e), h => by
    obtain ⟨text, hText⟩ := Expr.Proper.dump h.2
    refine ⟨form ("var " ++ name.lexeme) [text], ?_⟩
    rw [Stmt.dump, hText]
    rfl
  | .block body, h => by
    obtain ⟨lines, hLines⟩ := Stmt.AllProper.dumpAll body h
    refine ⟨form "block" lines, ?_⟩
    rw [Stmt.dump, hLines]
    rfl
  | .ifElse condition thenBranch none, h => by
    obtain ⟨c, hc⟩ := Expr.Proper.dump h.1
    obtain ⟨t, ht⟩ := Stmt.Proper.dump thenBranch h.2
    refine ⟨form "if" [c, t], ?_⟩
    rw [Stmt.dump, hc, ht]
    rfl
  | .ifElse condition thenBranch (some elseBranch), h => by
    obtain ⟨c, hc⟩ := Expr.Proper.dump h.1
    obtain ⟨t, ht⟩ := Stmt.Proper.dump thenBranch h.2.1
    obtain ⟨e, he⟩ := Stmt.Proper.dump elseBranch h.2.2
    refine ⟨form "if" [c, t, e], ?_⟩
    rw [Stmt.dump, hc, ht, he]
    rfl
  | .whileLoop condition body, h => by
    obtain ⟨c, hc⟩ := Expr.Proper.dump h.1
    obtain ⟨b, hb⟩ := Stmt.Proper.dump body h.2
    refine ⟨form "while" [c, b], ?_⟩
    rw [Stmt.dump, hc, hb]
    rfl
  | .stray node, h => h.elim

theorem Stmt.AllProper.dumpAll :
    (statements : List Stmt) → Stmt.AllProper statements →
      ∃ lines, Stmt.dumpAll statements = .ok lines
  | [], _ => ⟨[], rfl⟩
  | s :: rest, h => by
    obtain ⟨line, hLine⟩ := Stmt.Proper.dump s h.1
    obtain ⟨lines, hLines⟩ := Stmt.AllProper.dumpAll rest h.2
    refine ⟨line :: lines, ?_⟩
    rw [Stmt.dumpAll, hLine, hLines]
    rfl

end

end Scriptlet
