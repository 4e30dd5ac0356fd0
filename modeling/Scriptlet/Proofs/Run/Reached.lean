import Scriptlet.Proofs.Run.InnerScope
import Scriptlet.Proofs.Tree.Context

/-!
# Scriptlet — the places that a run comes to

A run goes through its tree: it comes to an operand once those before it have
values, to a statement once those before it went through, to a branch if the
condition is for it, and to the body of a loop in every round. Every place that it
comes to is one of the tree, and the scopes there are those that the run started
in with one more for each block that it is inside of.

## Results

* `Expr.Reaches`, `Stmt.AllReach` — the nodes that a run comes to, and on which machine.
* `exists_context`          — they are nodes of the tree.
* `length_enclosing`        — the scopes that have been opened on the way.
* `Machine.leave`           — what is left of them and what is printed once they are left.
-/

namespace Scriptlet

open Run

-- ---------------------------------------------------------------------------
-- The places that a run comes to
-- ---------------------------------------------------------------------------

/--
Evaluating the first expression on the first machine comes to evaluating the
second one on the second machine. Operands are evaluated from left to right.
-/
inductive Expr.Reaches : Expr → Machine → Expr → Machine → Prop where
  | here {e : Expr} {m : Machine} : Reaches e m e m
  | grouping {inner x : Expr} {m n : Machine} (h : Reaches inner m x n) :
      Reaches (.grouping inner) m x n
  | operand {o : Token} {e x : Expr} {m n : Machine} (h : Reaches e m x n) :
      Reaches (.unary o e) m x n
  | binaryLeft {o : Token} {left right x : Expr} {m n : Machine} (h : Reaches left m x n) :
      Reaches (.binary left o right) m x n
  | binaryRight {o : Token} {left right x : Expr} {a : Value} {m k n : Machine}
      (hLeft : eval left m = .ok a k) (h : Reaches right k x n) :
      Reaches (.binary left o right) m x n
  | logicalLeft {o : Token} {left right x : Expr} {m n : Machine} (h : Reaches left m x n) :
      Reaches (.logical left o right) m x n
  | logicalRight {o : Token} {left right x : Expr} {a : Value} {m k n : Machine}
      (hLeft : eval left m = .ok a k) (hOpen : settles o a = false) (h : Reaches right k x n) :
      Reaches (.logical left o right) m x n
  | assigned {name : Token} {value x : Expr} {m n : Machine} (h : Reaches value m x n) :
      Reaches (.assign name value) m x n

/--
Running the statements on the first machine comes to evaluating the expression
on the second one, in so many blocks more than the statements stand in.
-/
inductive Stmt.AllReach : List Stmt → Machine → Expr → Machine → Nat → Prop where
  | expression {e x : Expr} {rest : List Stmt} {m n : Machine} (h : e.Reaches m x n) :
      AllReach (.expression e :: rest) m x n 0
  | print {e x : Expr} {rest : List Stmt} {m n : Machine} (h : e.Reaches m x n) :
      AllReach (.print e :: rest) m x n 0
  | initializer {name : Token} {e x : Expr} {rest : List Stmt} {m n : Machine}
      (h : e.Reaches m x n) : AllReach (.varDecl name (some e) :: rest) m x n 0
  | block {body rest : List Stmt} {x : Expr} {m n : Machine} {depth : Nat}
      (h : AllReach body m.push x n depth) : AllReach (.block body :: rest) m x n (depth + 1)
  | condition {c x : Expr} {s : Stmt} {other : Option Stmt} {rest : List Stmt} {m n : Machine}
      (h : c.Reaches m x n) : AllReach (.ifElse c s other :: rest) m x n 0
  | thenBranch {c x : Expr} {s : Stmt} {other : Option Stmt} {rest : List Stmt}
      {m k n : Machine} {depth : Nat} (hTest : test c m = .ok true k)
      (h : AllReach [s] k x n depth) : AllReach (.ifElse c s other :: rest) m x n depth
  | elseBranch {c x : Expr} {s other : Stmt} {rest : List Stmt} {m k n : Machine} {depth : Nat}
      (hTest : test c m = .ok false k) (h : AllReach [other] k x n depth) :
      AllReach (.ifElse c s (some other) :: rest) m x n depth
  | loopCondition {c x : Expr} {s : Stmt} {rest : List Stmt} {m n : Machine}
      (h : c.Reaches m x n) : AllReach (.whileLoop c s :: rest) m x n 0
  | loopBody {c x : Expr} {s : Stmt} {rest : List Stmt} {m k n : Machine} {depth : Nat}
      (hTest : test c m = .ok true k) (h : AllReach [s] k x n depth) :
      AllReach (.whileLoop c s :: rest) m x n depth
  /-- A round went through, and the loop comes to the place in a later one. -/
  | loopAgain {c x : Expr} {s : Stmt} {rest : List Stmt} {m k l n : Machine} {depth : Nat}
      (hTest : test c m = .ok true k) (hRound : s.Ends k (.ok () l))
      (h : AllReach [.whileLoop c s] l x n depth) : AllReach (.whileLoop c s :: rest) m x n depth
  | later {s : Stmt} {rest : List Stmt} {x : Expr} {m k n : Machine} {depth : Nat}
      (hFirst : s.Ends m (.ok () k)) (h : AllReach rest k x n depth) :
      AllReach (s :: rest) m x n depth

-- ---------------------------------------------------------------------------
-- Where the nodes stand
-- ---------------------------------------------------------------------------

section

variable {e x : Expr} {s : Stmt} {statements : List Stmt} {m n k : Machine} {depth : Nat}

/-- An expression comes to its own nodes only. -/
theorem Expr.Reaches.exists_context (h : e.Reaches m x n) : ∃ c : Expr.Context, c.fill x = e := by
  induction h with
  | here => exact ⟨.here, rfl⟩
  | grouping _ ih =>
    obtain ⟨c, rfl⟩ := ih
    exact ⟨.grouping c, rfl⟩
  | @operand o _ _ _ _ _ ih =>
    obtain ⟨c, rfl⟩ := ih
    exact ⟨.unary o c, rfl⟩
  | @binaryLeft o _ right _ _ _ _ ih =>
    obtain ⟨c, rfl⟩ := ih
    exact ⟨.binaryLeft c o right, rfl⟩
  | @binaryRight o left _ _ _ _ _ _ _ _ ih =>
    obtain ⟨c, rfl⟩ := ih
    exact ⟨.binaryRight left o c, rfl⟩
  | @logicalLeft o _ right _ _ _ _ ih =>
    obtain ⟨c, rfl⟩ := ih
    exact ⟨.logicalLeft c o right, rfl⟩
  | @logicalRight o left _ _ _ _ _ _ _ _ _ ih =>
    obtain ⟨c, rfl⟩ := ih
    exact ⟨.logicalRight left o c, rfl⟩
  | @assigned name _ _ _ _ _ ih =>
    obtain ⟨c, rfl⟩ := ih
    exact ⟨.assign name c, rfl⟩

theorem exists_context_cons {c : Stmt.Context} (h : c.fill x = s) (rest : List Stmt) :
    ∃ c : Stmt.ListContext, c.fill x = s :: rest := by
  refine ⟨{ front := [], inner := c, back := rest }, ?_⟩
  rw [← h]
  rfl

theorem exists_context_single {c : Stmt.ListContext} (h : c.fill x = [s]) :
    ∃ c : Stmt.Context, c.fill x = s := by
  obtain ⟨front, inner, back⟩ := c
  refine ⟨inner, ?_⟩
  have hMem : inner.fill x ∈ [s] := by
    rw [← h]
    exact List.mem_append_right _ (List.mem_cons_self ..)
  exact List.mem_singleton.mp hMem

/-- Statements come to nodes of theirs only. -/
theorem Stmt.AllReach.exists_context (h : Stmt.AllReach statements m x n depth) :
    ∃ c : Stmt.ListContext, c.fill x = statements := by
  induction h with
  | expression h =>
    obtain ⟨c, rfl⟩ := h.exists_context
    exact exists_context_cons (c := .expression c) rfl _
  | print h =>
    obtain ⟨c, rfl⟩ := h.exists_context
    exact exists_context_cons (c := .print c) rfl _
  | @initializer name _ _ _ _ _ h =>
    obtain ⟨c, rfl⟩ := h.exists_context
    exact exists_context_cons (c := .varDecl name c) rfl _
  | block _ ih =>
    obtain ⟨⟨front, inner, back⟩, rfl⟩ := ih
    exact exists_context_cons (c := .block front inner back) rfl _
  | @condition _ _ s other _ _ _ h =>
    obtain ⟨c, rfl⟩ := h.exists_context
    exact exists_context_cons (c := .ifCondition c s other) rfl _
  | @thenBranch c _ _ other _ _ _ _ _ _ _ ih =>
    obtain ⟨_, hFill⟩ := ih
    obtain ⟨inner, rfl⟩ := exists_context_single hFill
    exact exists_context_cons (c := .ifThen c inner other) rfl _
  | @elseBranch c _ s _ _ _ _ _ _ _ _ ih =>
    obtain ⟨_, hFill⟩ := ih
    obtain ⟨inner, rfl⟩ := exists_context_single hFill
    exact exists_context_cons (c := .ifElse c s inner) rfl _
  | @loopCondition _ _ s _ _ _ h =>
    obtain ⟨c, rfl⟩ := h.exists_context
    exact exists_context_cons (c := .whileCondition c s) rfl _
  | @loopBody c _ _ _ _ _ _ _ _ _ ih =>
    obtain ⟨_, hFill⟩ := ih
    obtain ⟨inner, rfl⟩ := exists_context_single hFill
    exact exists_context_cons (c := .whileBody c inner) rfl _
  | loopAgain _ _ _ ih =>
    obtain ⟨_, hFill⟩ := ih
    obtain ⟨inner, hInner⟩ := exists_context_single hFill
    exact exists_context_cons hInner _
  | @later s _ _ _ _ _ _ _ _ ih =>
    obtain ⟨⟨front, inner, back⟩, rfl⟩ := ih
    exact ⟨{ front := s :: front, inner, back }, rfl⟩

end

-- ---------------------------------------------------------------------------
-- Scopes
-- ---------------------------------------------------------------------------

section

variable {e x : Expr} {s : Stmt} {statements : List Stmt} {m n k : Machine} {depth : Nat}

theorem length_enclosing_eval {v : Value} (h : eval e m = .ok v k) :
    k.environment.enclosing.length = m.environment.enclosing.length := by
  have hFollows : m.environment.Follows e.assigned [] (Ending.machine (eval e m)).environment :=
    (Environment.Follows.kept e.assigned).keeps_eval (List.Subset.refl e.assigned) m
  rw [h] at hFollows
  exact hFollows.length_enclosing

theorem length_enclosing_test {truth : Bool} (h : test e m = .ok truth k) :
    k.environment.enclosing.length = m.environment.enclosing.length := by
  have hFollows : m.environment.Follows e.assigned [] (Ending.machine (test e m)).environment :=
    (Environment.Follows.kept e.assigned).keeps_test (List.Subset.refl e.assigned) m
  rw [h] at hFollows
  exact hFollows.length_enclosing

theorem length_enclosing_of_ends (h : s.Ends m (.ok () k)) :
    k.environment.enclosing.length = m.environment.enclosing.length := by
  obtain ⟨-, rounds, hRun⟩ := h
  have hFollows : m.environment.Follows s.assigned s.declared
      (Ending.machine (exec rounds s m)).environment :=
    keeps_exec rounds s (List.Subset.refl s.assigned) (List.Subset.refl s.declared) m
  have hExec : exec rounds s m = .ok () k := hRun
  rw [hExec] at hFollows
  exact hFollows.length_enclosing

theorem Expr.Reaches.length_enclosing (h : e.Reaches m x n) :
    n.environment.enclosing.length = m.environment.enclosing.length := by
  induction h with
  | here => rfl
  | grouping _ ih => exact ih
  | operand _ ih => exact ih
  | binaryLeft _ ih => exact ih
  | binaryRight hLeft _ ih => exact ih.trans (length_enclosing_eval hLeft)
  | logicalLeft _ ih => exact ih
  | logicalRight hLeft _ _ ih => exact ih.trans (length_enclosing_eval hLeft)
  | assigned _ ih => exact ih

/-- The depth is the number of scopes that have been opened on the way. -/
theorem Stmt.AllReach.length_enclosing (h : Stmt.AllReach statements m x n depth) :
    n.environment.enclosing.length = m.environment.enclosing.length + depth := by
  induction h with
  | expression h => exact h.length_enclosing
  | print h => exact h.length_enclosing
  | initializer h => exact h.length_enclosing
  | @block _ _ _ m _ depth _ ih =>
    have hPush : m.push.environment.enclosing.length = m.environment.enclosing.length + 1 := rfl
    omega
  | condition h => exact h.length_enclosing
  | thenBranch hTest _ ih => rw [ih, length_enclosing_test hTest]
  | elseBranch hTest _ ih => rw [ih, length_enclosing_test hTest]
  | loopCondition h => exact h.length_enclosing
  | loopBody hTest _ ih => rw [ih, length_enclosing_test hTest]
  | loopAgain hTest hRound _ ih =>
    rw [ih, length_enclosing_of_ends hRound, length_enclosing_test hTest]
  | later hFirst _ ih => rw [ih, length_enclosing_of_ends hFirst]

end

/-- The machine once so many blocks are left. -/
def Machine.leave : Nat → Machine → Machine
  | 0, m => m
  | depth + 1, m => (m.leave depth).pop

/-- Leaving blocks takes nothing back that was printed. -/
theorem Machine.printed_leave (m : Machine) (depth : Nat) : (m.leave depth).printed = m.printed := by
  induction depth with
  | zero => rfl
  | succ depth ih => exact ih

/-- Leaving blocks takes nothing back in the scopes around them. -/
theorem Machine.scopes_leave {m : Machine} {depth : Nat}
    (h : depth ≤ m.environment.enclosing.length) :
    (m.leave depth).environment.scopes = m.environment.scopes.drop depth := by
  have hLength : m.environment.scopes.length = m.environment.enclosing.length + 1 := rfl
  induction depth with
  | zero => rfl
  | succ depth ih =>
    have hScopes := ih (by omega)
    rw [List.drop_eq_getElem_cons (by omega)] at hScopes
    refine Environment.scopes_pop hScopes ?_
    rw [Ne, List.drop_eq_nil_iff]
    omega

end Scriptlet
