import Scriptlet.Proofs.Tree.Proper
import Scriptlet.Run.Machine

/-!
# Scriptlet — proper trees run without a defect

A run is sound if it never ends with a defect of its tree, from whatever machine
it starts. Soundness is kept by everything that runs are put together from; a
loop keeps it round by round. What is left are the operators, and a proper tree
holds only those that can be evaluated.

## Results

* `Run.Sound`               — never ends with a defect.
* `sound_eval`              — proper expressions.
* `sound_exec`, `sound_execAll` — proper statements.
-/

namespace Scriptlet

-- ---------------------------------------------------------------------------
-- Runs
-- ---------------------------------------------------------------------------

/-- Whether a run may end early like this; a defect of the tree is not allowed. -/
def Halt.Allowed : Halt → Prop
  | fault _ => True
  | defect _ => False
  | unfinished => True

namespace Run

variable {α β : Type}

/-- A run that never ends with a defect. -/
def Sound (run : Run α) : Prop :=
  ∀ (m m' : Machine) (halt : Halt), run m = .error halt m' → halt.Allowed

theorem sound_pure (value : α) : Sound (pure value : Run α) := by
  intro m m' halt h
  cases h

theorem sound_bind {first : Run α} {next : α → Run β} (hFirst : first.Sound)
    (hNext : ∀ value, (next value).Sound) : (first >>= next).Sound := by
  intro m m' halt h
  have hBind : EStateM.bind first next m = .error halt m' := h
  unfold EStateM.bind at hBind
  cases hRun : first m with
  | ok value middle =>
    rw [hRun] at hBind
    exact hNext value middle m' halt hBind
  | error early middle =>
    rw [hRun] at hBind
    cases hBind
    exact hFirst m m' halt hRun

theorem sound_ofExcept {result : Except Halt α} (h : ∀ halt, result = .error halt → halt.Allowed) :
    (ofExcept result).Sound := by
  intro m m' halt hRun
  cases result with
  | ok value => cases hRun
  | error early =>
    cases hRun
    exact h halt rfl

theorem sound_modify (f : Machine → Machine) : Sound (modify f : Run PUnit) := by
  intro m m' halt h
  cases h

theorem sound_lookUp (name : Token) : (lookUp name).Sound := by
  intro m m' halt h
  unfold lookUp at h
  split at h
  · cases h
  · cases h
    trivial

theorem sound_assign (name : Token) (value : Value) : (assign name value).Sound := by
  intro m m' halt h
  unfold assign at h
  split at h
  · cases h
  · cases h
    trivial

theorem sound_inNewScope {body : Run α} (hBody : body.Sound) : (inNewScope body).Sound := by
  intro m m' halt h
  unfold inNewScope at h
  cases hRun : body m.push with
  | ok value middle =>
    rw [hRun] at h
    cases h
  | error early middle =>
    rw [hRun] at h
    cases h
    exact hBody m.push middle halt hRun

/-- By induction on the rounds: the condition and the body of each round keep it sound. -/
theorem sound_iterate {condition : Run Bool} {body : Run Unit} (hCondition : condition.Sound)
    (hBody : body.Sound) (rounds : Nat) : (iterate rounds condition body).Sound := by
  induction rounds with
  | zero =>
    intro m m' halt h
    cases h
    trivial
  | succ rounds ih =>
    intro m m' halt h
    unfold iterate at h
    cases hTest : condition m with
    | error early middle =>
      rw [hTest] at h
      cases h
      exact hCondition m m' halt hTest
    | ok value middle =>
      rw [hTest] at h
      cases value with
      | false => cases h
      | true =>
        cases hRound : body middle with
        | error early after =>
          simp only [hRound] at h
          cases h
          exact hBody middle m' halt hRound
        | ok done after =>
          simp only [hRound] at h
          exact ih after m' halt h

end Run

open Run

-- ---------------------------------------------------------------------------
-- Operators
-- ---------------------------------------------------------------------------

theorem allowed_of_operatorFault {α : Type} {operator : Token} {cause : FaultCause} {halt : Halt}
    (h : (operatorFault operator cause : Except Halt α) = .error halt) : halt.Allowed := by
  cases h
  trivial

/-- `!` and `-` can be applied to every value; they may fault but are never unknown. -/
theorem allowed_of_applyUnary {operator : Token}
    (hKind : operator.kind = .bang ∨ operator.kind = .minus) (value : Value) {halt : Halt}
    (h : applyUnary operator value = .error halt) : halt.Allowed := by
  unfold applyUnary at h
  rcases hKind with hKind | hKind
  · rw [hKind] at h
    cases h
  · rw [hKind] at h
    dsimp only at h
    split at h
    · cases h
    · exact allowed_of_operatorFault h

/-- The operators behind the check that both operands are numbers. -/
theorem allowed_of_applyToNumbers {operator : Token} (hKind : operator.kind ∈ binaryKinds)
    (hEqual : operator.kind ≠ .equalEqual) (hNot : operator.kind ≠ .bangEqual)
    (hPlus : operator.kind ≠ .plus) (a b : Float) {halt : Halt}
    (h : applyToNumbers operator a b = .error halt) : halt.Allowed := by
  unfold applyToNumbers at h
  split at h
  · cases h
  · cases h
  · cases h
  · cases h
  · cases h
  · cases h
  · split at h
    · exact allowed_of_operatorFault h
    · cases h
  · next hGreater hGreaterEqual hLess hLessEqual hMinus hStar hSlash =>
    -- none of the ten operators is left
    simp only [binaryKinds, List.mem_cons, List.not_mem_nil, or_false] at hKind
    rcases hKind with hKind | hKind | hKind | hKind | hKind | hKind | hKind | hKind | hKind | hKind
    all_goals contradiction

theorem allowed_of_applyBinary {operator : Token} (hKind : operator.kind ∈ binaryKinds)
    (left right : Value) {halt : Halt} (h : applyBinary operator left right = .error halt) :
    halt.Allowed := by
  unfold applyBinary at h
  split at h
  · cases h
  · cases h
  · split at h
    · cases h
    · cases h
    · exact allowed_of_operatorFault h
  · next hEqual hNot hPlus =>
    split at h
    · exact allowed_of_applyToNumbers hKind hEqual hNot hPlus _ _ h
    · exact allowed_of_operatorFault h

-- ---------------------------------------------------------------------------
-- Expressions
-- ---------------------------------------------------------------------------

theorem sound_eval {e : Expr} (h : e.Proper) : (eval e).Sound := by
  induction e with
  | literal value => exact sound_pure value
  | grouping inner ih => exact ih h
  | unary operator operand ih =>
    refine sound_bind (ih h.2) ?_
    intro value
    exact sound_ofExcept fun halt hHalt => allowed_of_applyUnary h.1 value hHalt
  | binary left operator right ihLeft ihRight =>
    refine sound_bind (ihLeft h.2.1) ?_
    intro a
    refine sound_bind (ihRight h.2.2) ?_
    intro b
    exact sound_ofExcept fun halt hHalt => allowed_of_applyBinary h.1 a b hHalt
  | logical left operator right ihLeft ihRight =>
    refine sound_bind (ihLeft h.2.1) ?_
    intro a
    show Sound (if settles operator a then pure a else eval right)
    by_cases hSettles : settles operator a
    · rw [if_pos hSettles]
      exact sound_pure a
    · rw [if_neg hSettles]
      exact ihRight h.2.2
  | «variable» name => exact sound_lookUp name
  | assign name value ih =>
    refine sound_bind (ih h.2) ?_
    intro v
    refine sound_bind (sound_assign name v) ?_
    intro _
    exact sound_pure v
  | stray node => exact h.elim

theorem sound_test {condition : Expr} (h : condition.Proper) : (test condition).Sound := by
  refine sound_bind (sound_eval h) ?_
  intro value
  exact sound_pure value.isTruthy

-- ---------------------------------------------------------------------------
-- Statements
-- ---------------------------------------------------------------------------

mutual

theorem sound_exec (rounds : Nat) : (s : Stmt) → s.Proper → (exec rounds s).Sound
  | .expression e, h => sound_bind (sound_eval h) fun _ => sound_pure ()
  | .print e, h => sound_bind (sound_eval h) fun _ => sound_modify _
  | .varDecl name none, h => sound_modify _
  | .varDecl name (some e), h => sound_bind (sound_eval h.2) fun _ => sound_modify _
  | .block body, h => sound_inNewScope (sound_execAll rounds body h)
  | .ifElse condition thenBranch none, h => by
    refine sound_bind (sound_test h.1) ?_
    intro value
    cases value with
    | true => exact sound_exec rounds thenBranch h.2
    | false => exact sound_pure ()
  | .ifElse condition thenBranch (some elseBranch), h => by
    refine sound_bind (sound_test h.1) ?_
    intro value
    cases value with
    | true => exact sound_exec rounds thenBranch h.2.1
    | false => exact sound_exec rounds elseBranch h.2.2
  | .whileLoop condition body, h =>
    sound_iterate (sound_test h.1) (sound_exec rounds body h.2) rounds
  | .stray node, h => h.elim

theorem sound_execAll (rounds : Nat) :
    (statements : List Stmt) → Stmt.AllProper statements → (execAll rounds statements).Sound
  | [], _ => sound_pure ()
  | s :: rest, h => sound_bind (sound_exec rounds s h.1) fun _ => sound_execAll rounds rest h.2

end

end Scriptlet
