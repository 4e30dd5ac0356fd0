import Scriptlet.Proofs.Parse.ProperTrees
import Scriptlet.Proofs.Tree.Names

/-!
# Scriptlet — where the parser puts declarations

A declaration stands in a program or in a block, never where only a statement
may stand. So what the parser builds from a statement declares nothing in the
scope that it runs in; a loop whose first clause declares a name is a block.

## Results

* `declared_loop`           — `for` loops.
* `undeclared_statement`    — statements, whatever was complained about.
-/

namespace Scriptlet.Parse

open Step

/-- A statement that declares nothing in the scope it runs in. -/
def Undeclared (s : Stmt) : Prop := s.declared = []

/-- Every step yields something. -/
theorem yields_true {α : Type} {tokens : List Token} (s : Step α tokens) :
    s.Yields fun _ => True := by
  cases s <;> trivial

/-- Around an initializer there is a block, so a loop declares what its body declares. -/
theorem declared_loop (head : ForHead) {body : Stmt} (h : Undeclared body) :
    Undeclared (head.loop body) := by
  obtain ⟨initializer, condition, increment⟩ := head
  cases initializer with
  | some s => rfl
  | none =>
    cases increment with
    | some e => rfl
    | none => exact h

section

variable {tokens : List Token}

theorem undeclared_ifStatement
    (ih : ∀ after, after.length < tokens.length → (statement after).Yields Undeclared) :
    (ifStatement tokens).Yields Undeclared := by
  rw [ifStatement]
  refine yields_bind (yields_true (condition .noIfParen .openIfCondition tokens)) ?_
  intro e rest hCondition _
  refine yields_andThen (ih rest hCondition.2) ?_
  intro thenBranch after h hThen
  cases after with
  | nil => trivial
  | cons t after =>
    dsimp only
    by_cases hElse : t.kind = .elseKw
    · rw [if_pos hElse]
      have hLess : after.length < tokens.length := Nat.lt_trans h.length_tail_lt hCondition.2
      refine yields_within _ (yields_map (ih after hLess) ?_)
      intro elseBranch hBranch
      show thenBranch.declared ++ elseBranch.declared = []
      rw [hThen, hBranch, List.append_nil]
    · rw [if_neg hElse]
      exact hThen

theorem undeclared_whileStatement
    (ih : ∀ after, after.length < tokens.length → (statement after).Yields Undeclared) :
    (whileStatement tokens).Yields Undeclared := by
  rw [whileStatement]
  refine yields_bind (yields_true (condition .noWhileParen .openWhileCondition tokens)) ?_
  intro e rest h _
  exact yields_map (ih rest h.2) fun body hBody => hBody

theorem undeclared_forStatement
    (ih : ∀ after, after.length < tokens.length → (statement after).Yields Undeclared) :
    (forStatement tokens).Yields Undeclared := by
  rw [forStatement]
  refine yields_bind (yields_true (forHead tokens)) ?_
  intro head rest h _
  exact yields_map (ih rest h.2) fun body hBody => declared_loop head hBody

end

/-- By induction on the tokens; what stands in a block does not matter. -/
theorem undeclared_statement (tokens : List Token) : (statement tokens).Yields Undeclared := by
  induction hLength : tokens.length using Nat.strongRecOn generalizing tokens with
  | ind n ih =>
    subst hLength
    cases tokens with
    | nil =>
      rw [statement]
      trivial
    | cons t rest =>
      have ih : ∀ after, after.length < rest.length → (statement after).Yields Undeclared := by
        intro after h
        have hLess : after.length < (t :: rest).length := by
          rw [List.length_cons]
          omega
        exact ih after.length hLess after rfl
      rw [statement]
      split
      · exact yields_within _ (undeclared_forStatement ih)
      · exact yields_within _ (undeclared_ifStatement ih)
      · exact yields_within _ (yields_closed (yields_true (expression rest)) fun _ _ _ => rfl)
      · exact yields_within _ (undeclared_whileStatement ih)
      · exact yields_within _ (yields_map (yields_true (block rest)) fun _ _ => rfl)
      · exact yields_closed (yields_true (expression (t :: rest))) fun _ _ _ => rfl

end Scriptlet.Parse
