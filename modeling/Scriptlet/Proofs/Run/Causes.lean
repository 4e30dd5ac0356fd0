import Scriptlet.Proofs.Parse.ProperTrees
import Scriptlet.Proofs.Run.ForLoop
import Scriptlet.Proofs.Run.Reached

/-!
# Scriptlet — the causes of faults

A run breaks off at a place of its tree: it has come to a node there whose
operands have values, and its operator cannot be applied to them, or the name in
it is bound nowhere. The token of the fault is the operator or the name of that
node, and the wording says what was wrong. What was printed and bound up to that
moment stays, but for the scopes of the blocks that are left.

## Results

* `Expr.Fails`              — the nodes that cannot be evaluated any further.
* `Fault.eq_of_message`     — the wording tells the cause.
* `applyBinary_eq_fault_iff` and so on — where operators and names fault.
* `caused_of_eval`, `caused_of_execAll` — every fault of a run has a cause.
* `allEnd_of_allReach`      — and every cause breaks a run off.
* `faults_iff`              — both, for the trees that are read.
-/

namespace Scriptlet

open Run

-- ---------------------------------------------------------------------------
-- The nodes that fail
-- ---------------------------------------------------------------------------

/-- Whether a value is a string. -/
def Value.isText : Value → Bool
  | text _ => true
  | _ => false

/-- The operators, `+` aside, that need numbers. -/
def numberKinds : List TokenKind :=
  [.greater, .greaterEqual, .less, .lessEqual, .minus, .star, .slash]

/-- No scope of the chain binds the name. -/
def Environment.Unbound (env : Environment) (name : String) : Prop :=
  ∀ scope ∈ env.scopes, name ∉ scope.names

/--
The expression, evaluated from the first machine on, cannot be evaluated any
further once its operands have values, which is on the second machine. It fails at
this token and with this wording.
-/
inductive Expr.Fails : Expr → Machine → Token → String → Machine → Prop where
  | unboundVariable {name : Token} {m : Machine} (h : m.environment.Unbound name.lexeme) :
      Fails (.variable name) m name ("Undefined variable '" ++ name.lexeme ++ "'.") m
  | unboundTarget {name : Token} {value : Expr} {v : Value} {m k : Machine}
      (hValue : eval value m = .ok v k) (h : k.environment.Unbound name.lexeme) :
      Fails (.assign name value) m name ("Undefined variable '" ++ name.lexeme ++ "'.") k
  | operand {o : Token} {e : Expr} {v : Value} {m k : Machine} (hKind : o.kind = .minus)
      (hOperand : eval e m = .ok v k) (h : v.isNumber = false) :
      Fails (.unary o e) m o "Operand must be a number." k
  | unlike {o : Token} {left right : Expr} {a b : Value} {m n k : Machine}
      (hKind : o.kind = .plus) (hLeft : eval left m = .ok a n) (hRight : eval right n = .ok b k)
      (hNumbers : ¬(a.isNumber ∧ b.isNumber)) (hTexts : ¬(a.isText ∧ b.isText)) :
      Fails (.binary left o right) m o "Operands must be two numbers or two strings." k
  | operands {o : Token} {left right : Expr} {a b : Value} {m n k : Machine}
      (hKind : o.kind ∈ numberKinds) (hLeft : eval left m = .ok a n)
      (hRight : eval right n = .ok b k) (hNumbers : ¬(a.isNumber ∧ b.isNumber)) :
      Fails (.binary left o right) m o "Operands must be numbers." k
  | division {o : Token} {left right : Expr} {x y : Float} {m n k : Machine}
      (hKind : o.kind = .slash) (hLeft : eval left m = .ok (.number x) n)
      (hRight : eval right n = .ok (.number y) k) (hZero : y == 0) :
      Fails (.binary left o right) m o "Division by zero." k

section

variable {x : Expr} {n k : Machine} {t : Token} {message : String}

/-- Operands open no scopes. -/
theorem Expr.Fails.length_enclosing (h : x.Fails n t message k) :
    k.environment.enclosing.length = n.environment.enclosing.length := by
  cases h with
  | unboundVariable _ => rfl
  | unboundTarget hValue _ => exact length_enclosing_eval hValue
  | operand _ hOperand _ => exact length_enclosing_eval hOperand
  | unlike _ hLeft hRight _ _ =>
    exact (length_enclosing_eval hRight).trans (length_enclosing_eval hLeft)
  | operands _ hLeft hRight _ =>
    exact (length_enclosing_eval hRight).trans (length_enclosing_eval hLeft)
  | division _ hLeft hRight _ =>
    exact (length_enclosing_eval hRight).trans (length_enclosing_eval hLeft)

end

-- ---------------------------------------------------------------------------
-- Wordings
-- ---------------------------------------------------------------------------

/-- The wordings of faults differ in their eighteenth character. -/
def FaultCause.mark : FaultCause → Option Char
  | undefinedVariable => some 'e'
  | operandNotNumber => some ' '
  | operandsNotNumbers => some 'n'
  | operandsDiffer => some 't'
  | divisionByZero => none

theorem Fault.getElem?_message (f : Fault) : f.message.toList[17]? = f.cause.mark := by
  obtain ⟨t, cause⟩ := f
  cases cause with
  | undefinedVariable =>
    show ("Undefined variable '" ++ t.lexeme ++ "'.").toList[17]? = some 'e'
    rw [String.toList_append, String.toList_append, List.append_assoc]
    rfl
  | operandNotNumber =>
    show "Operand must be a number.".toList[17]? = some ' '
    decide
  | operandsNotNumbers =>
    show "Operands must be numbers.".toList[17]? = some 'n'
    decide
  | operandsDiffer =>
    show "Operands must be two numbers or two strings.".toList[17]? = some 't'
    decide
  | divisionByZero =>
    show "Division by zero.".toList[17]? = none
    decide

/-- A fault is known by its token and its wording. -/
theorem Fault.eq_of_message {f g : Fault} (hToken : f.token = g.token)
    (hMessage : f.message = g.message) : f = g := by
  have hMark : f.cause.mark = g.cause.mark := by
    rw [← f.getElem?_message, ← g.getElem?_message, hMessage]
  have hInjective : ∀ a b : FaultCause, a.mark = b.mark → a = b := by
    intro a b
    cases a <;> cases b <;> decide
  have hCause := hInjective _ _ hMark
  obtain ⟨t, cause⟩ := f
  obtain ⟨u, other⟩ := g
  cases hToken
  cases hCause
  rfl

-- ---------------------------------------------------------------------------
-- Runs one after the other
-- ---------------------------------------------------------------------------

namespace Run

variable {α β : Type} {first : Run α} {next : α → Run β} {m n k : Machine} {halt : Halt}

theorem bind_of_ok {value : α} (h : first m = .ok value n) : (first >>= next) m = next value n := by
  show EStateM.bind first next m = _
  unfold EStateM.bind
  rw [h]

theorem bind_of_error (h : first m = .error halt n) : (first >>= next) m = .error halt n := by
  show EStateM.bind first next m = _
  unfold EStateM.bind
  rw [h]

/-- What halts is the first run, or the second one from where the first one ended. -/
theorem bind_eq_error_iff : (first >>= next) m = .error halt k ↔
    first m = .error halt k ∨ ∃ value n, first m = .ok value n ∧ next value n = .error halt k := by
  cases hFirst : first m with
  | ok value n =>
    rw [bind_of_ok hFirst]
    constructor
    · intro h
      exact .inr ⟨value, n, rfl, h⟩
    · rintro (h | ⟨other, l, h, hNext⟩)
      · cases h
      · cases h
        exact hNext
  | error early n =>
    rw [bind_of_error hFirst]
    constructor
    · intro h
      cases h
      exact .inl rfl
    · rintro (h | ⟨other, l, h, -⟩)
      · cases h
        rfl
      · cases h

theorem ofExcept_eq_error_iff {result : Except Halt α} :
    ofExcept result m = .error halt k ↔ result = .error halt ∧ k = m := by
  cases result with
  | ok value =>
    constructor
    · intro h
      cases h
    · rintro ⟨h, -⟩
      cases h
  | error early =>
    constructor
    · intro h
      cases h
      exact ⟨rfl, rfl⟩
    · rintro ⟨h, rfl⟩
      cases h
      rfl

end Run

theorem test_eq_error_iff {condition : Expr} {m k : Machine} {halt : Halt} :
    test condition m = .error halt k ↔ eval condition m = .error halt k := by
  unfold test
  rw [bind_eq_error_iff]
  constructor
  · rintro (h | ⟨value, n, -, h⟩)
    · exact h
    · cases h
  · exact .inl

-- ---------------------------------------------------------------------------
-- Names and operators
-- ---------------------------------------------------------------------------

theorem Environment.get?_eq_none_iff {env : Environment} {name : String} :
    env.get? name = none ↔ env.Unbound name := by
  unfold Environment.get? lookupIn Environment.Unbound
  rw [List.findSome?_eq_none_iff]
  refine forall₂_congr fun scope _ => ?_
  rw [← Scope.binds_iff, Scope.binds, Bool.not_eq_true, Option.isSome_eq_false_iff,
    Option.isNone_iff_eq_none]

theorem Environment.assign?_eq_none_iff {env : Environment} {name : String} {value : Value} :
    env.assign? name value = none ↔ env.Unbound name := by
  have hSome : (env.assign? name value).isSome = (env.get? name).isSome := by
    have hChain := isSome_assignIn name value env.enclosing
    unfold Environment.assign? Environment.get? lookupIn Environment.scopes
    rw [List.findSome?_cons]
    cases hCurrent : env.current.get? name with
    | some v => simp [Scope.binds, hCurrent]
    | none => simpa [Scope.binds, hCurrent, lookupIn] using hChain
  rw [← Environment.get?_eq_none_iff, ← Option.isNone_iff_eq_none, ← Option.isNone_iff_eq_none,
    ← Option.not_isSome, ← Option.not_isSome, hSome]

theorem lookUp_eq_fault_iff {name : Token} {m k : Machine} {f : Fault} :
    lookUp name m = .error (.fault f) k ↔
      m.environment.Unbound name.lexeme ∧ f = .undefined name ∧ k = m := by
  rw [← Environment.get?_eq_none_iff]
  unfold lookUp
  cases m.environment.get? name.lexeme with
  | some value => simp
  | none => simp [eq_comm]

theorem assign_eq_fault_iff {name : Token} {value : Value} {m k : Machine} {f : Fault} :
    Run.assign name value m = .error (.fault f) k ↔
      m.environment.Unbound name.lexeme ∧ f = .undefined name ∧ k = m := by
  rw [← @Environment.assign?_eq_none_iff _ _ value]
  unfold Run.assign
  cases m.environment.assign? name.lexeme value with
  | some environment => simp
  | none => simp [eq_comm]

section

variable {o : Token} {a b v : Value} {f : Fault}

theorem operatorFault_eq_iff {α : Type} {cause : FaultCause} :
    (operatorFault o cause : Except Halt α) = .error (.fault f) ↔ f = { token := o, cause } := by
  unfold operatorFault
  constructor
  · intro h
    cases h
    rfl
  · rintro rfl
    rfl

theorem applyUnary_eq_fault_iff : applyUnary o v = .error (.fault f) ↔
    o.kind = .minus ∧ v.isNumber = false ∧ f = { token := o, cause := .operandNotNumber } := by
  unfold applyUnary
  split
  · next hKind =>
    cases v with
    | number x => simp [Value.isNumber]
    | nil => simp [Value.isNumber, operatorFault_eq_iff, hKind]
    | bool b => simp [Value.isNumber, operatorFault_eq_iff, hKind]
    | text s => simp [Value.isNumber, operatorFault_eq_iff, hKind]
  · next hKind => simp [hKind]
  · next hMinus _ => exact iff_of_false (by simp) fun h => hMinus h.1

theorem applyToNumbers_eq_fault_iff {x y : Float} : applyToNumbers o x y = .error (.fault f) ↔
    o.kind = .slash ∧ (y == 0) = true ∧ f = { token := o, cause := .divisionByZero } := by
  unfold applyToNumbers
  split
  case h_7 hKind =>
    by_cases hZero : (y == 0) = true
    · simp [hZero, hKind, operatorFault_eq_iff]
    · simp [hZero]
  case h_8 hSlash => exact iff_of_false (by simp) fun h => hSlash h.1
  all_goals
    next hKind => simp [hKind]

/-- The operators that are neither `+` nor an equality need numbers. -/
theorem mem_numberKinds_iff (hKind : o.kind ∈ binaryKinds) : o.kind ∈ numberKinds ↔
    o.kind ≠ .equalEqual ∧ o.kind ≠ .bangEqual ∧ o.kind ≠ .plus := by
  have hAll : ∀ kind ∈ binaryKinds, kind ∈ numberKinds ↔
      kind ≠ .equalEqual ∧ kind ≠ .bangEqual ∧ kind ≠ .plus := by decide
  exact hAll _ hKind

theorem applyBinary_eq_fault_iff (hKind : o.kind ∈ binaryKinds) :
    applyBinary o a b = .error (.fault f) ↔
      (o.kind = .plus ∧ ¬(a.isNumber ∧ b.isNumber) ∧ ¬(a.isText ∧ b.isText) ∧
        f = { token := o, cause := .operandsDiffer }) ∨
      (o.kind ∈ numberKinds ∧ ¬(a.isNumber ∧ b.isNumber) ∧
        f = { token := o, cause := .operandsNotNumbers }) ∨
      (o.kind = .slash ∧ ∃ x y, a = .number x ∧ b = .number y ∧ (y == 0) = true ∧
        f = { token := o, cause := .divisionByZero }) := by
  rw [mem_numberKinds_iff hKind]
  unfold applyBinary
  split
  · next hEqual => simp [hEqual]
  · next hNot => simp [hNot]
  · next hPlus =>
    cases a <;> cases b <;> simp [hPlus, Value.isNumber, Value.isText, operatorFault_eq_iff]
  · next hEqual hNot hPlus =>
    have hEqual' : o.kind ≠ .equalEqual := hEqual
    have hNot' : o.kind ≠ .bangEqual := hNot
    have hPlus' : o.kind ≠ .plus := hPlus
    cases a <;> cases b <;>
      simp [hEqual', hNot', hPlus', Value.isNumber, operatorFault_eq_iff,
        applyToNumbers_eq_fault_iff]

end

-- ---------------------------------------------------------------------------
-- Expressions
-- ---------------------------------------------------------------------------

section

variable {e x : Expr} {m n k : Machine} {halt : Halt} {f : Fault} {t : Token} {message : String}

/-- What halts at a place that the evaluation comes to, halts all of it. -/
theorem Expr.Reaches.eval_eq_error (h : e.Reaches m x n) (hHalt : eval x n = .error halt k) :
    eval e m = .error halt k := by
  induction h with
  | here => exact hHalt
  | grouping _ ih => exact ih hHalt
  | operand _ ih => exact bind_of_error (ih hHalt)
  | binaryLeft _ ih => exact bind_of_error (ih hHalt)
  | binaryRight hLeft _ ih => exact (bind_of_ok hLeft).trans (bind_of_error (ih hHalt))
  | logicalLeft _ ih => exact bind_of_error (ih hHalt)
  | @logicalRight o left right x a m l n hLeft hOpen _ ih =>
    refine (bind_of_ok hLeft).trans ?_
    show (if settles o a then pure a else eval right : Run Value) l = _
    rw [hOpen]
    exact ih hHalt
  | assigned _ ih => exact bind_of_error (ih hHalt)

theorem Expr.Fails.eval_eq_error (h : x.Fails n t message k) :
    ∃ f : Fault, f.token = t ∧ f.message = message ∧ eval x n = .error (.fault f) k := by
  have hBinary : ∀ {o : Token} {left right : Expr} {a b : Value} {m n k : Machine} {f : Fault},
      eval left m = .ok a n → eval right n = .ok b k → applyBinary o a b = .error (.fault f) →
        eval (.binary left o right) m = .error (.fault f) k := by
    intro o left right a b m n k f hLeft hRight hApply
    exact (bind_of_ok hLeft).trans
      ((bind_of_ok hRight).trans (ofExcept_eq_error_iff.mpr ⟨hApply, rfl⟩))
  cases h with
  | unboundVariable h => exact ⟨.undefined t, rfl, rfl, lookUp_eq_fault_iff.mpr ⟨h, rfl, rfl⟩⟩
  | unboundTarget hValue h =>
    refine ⟨.undefined t, rfl, rfl, (bind_of_ok hValue).trans (bind_of_error ?_)⟩
    exact assign_eq_fault_iff.mpr ⟨h, rfl, rfl⟩
  | operand hKind hOperand h =>
    refine ⟨{ token := t, cause := .operandNotNumber }, rfl, rfl, (bind_of_ok hOperand).trans ?_⟩
    exact ofExcept_eq_error_iff.mpr ⟨applyUnary_eq_fault_iff.mpr ⟨hKind, h, rfl⟩, rfl⟩
  | unlike hKind hLeft hRight hNumbers hTexts =>
    have hBinaryKind : t.kind ∈ binaryKinds := by
      rw [hKind]
      decide
    refine ⟨{ token := t, cause := .operandsDiffer }, rfl, rfl, hBinary hLeft hRight ?_⟩
    exact (applyBinary_eq_fault_iff hBinaryKind).mpr (.inl ⟨hKind, hNumbers, hTexts, rfl⟩)
  | operands hKind hLeft hRight hNumbers =>
    have hSubset : numberKinds ⊆ binaryKinds := by decide
    refine ⟨{ token := t, cause := .operandsNotNumbers }, rfl, rfl, hBinary hLeft hRight ?_⟩
    exact (applyBinary_eq_fault_iff (hSubset hKind)).mpr (.inr (.inl ⟨hKind, hNumbers, rfl⟩))
  | division hKind hLeft hRight hZero =>
    have hBinaryKind : t.kind ∈ binaryKinds := by
      rw [hKind]
      decide
    refine ⟨{ token := t, cause := .divisionByZero }, rfl, rfl, hBinary hLeft hRight ?_⟩
    exact (applyBinary_eq_fault_iff hBinaryKind).mpr
      (.inr (.inr ⟨hKind, _, _, rfl, rfl, hZero, rfl⟩))

/-- An expression breaks off at a node that it comes to and that fails there. -/
def Expr.Caused (e : Expr) (m : Machine) (f : Fault) (k : Machine) : Prop :=
  ∃ x n, e.Reaches m x n ∧ x.Fails n f.token f.message k

/-- A cause inside an operand is one of the whole. -/
theorem Expr.Caused.mono {e' : Expr} {m' : Machine} (h : e.Caused m f k)
    (hReach : ∀ {x n}, e.Reaches m x n → e'.Reaches m' x n) : e'.Caused m' f k := by
  obtain ⟨x, n, hReaches, hFails⟩ := h
  exact ⟨x, n, hReach hReaches, hFails⟩

theorem caused_of_applyBinary {o : Token} {left right : Expr} {a b : Value} {l : Machine}
    (hKind : o.kind ∈ binaryKinds) (hLeft : eval left m = .ok a l) (hRight : eval right l = .ok b k)
    (h : applyBinary o a b = .error (.fault f)) : Expr.Caused (.binary left o right) m f k := by
  refine ⟨_, _, .here, ?_⟩
  rcases (applyBinary_eq_fault_iff hKind).mp h with ⟨hPlus, hNumbers, hTexts, rfl⟩ |
    ⟨hNumber, hNumbers, rfl⟩ | ⟨hSlash, x, y, rfl, rfl, hZero, rfl⟩
  · exact .unlike hPlus hLeft hRight hNumbers hTexts
  · exact .operands hNumber hLeft hRight hNumbers
  · exact .division hSlash hLeft hRight hZero

theorem caused_of_eval (hProper : e.Proper) (h : eval e m = .error (.fault f) k) :
    e.Caused m f k := by
  induction e generalizing m with
  | literal value => cases h
  | grouping inner ih => exact (ih hProper h).mono .grouping
  | unary o operand ih =>
    rcases bind_eq_error_iff.mp h with hInner | ⟨v, n, hOperand, hApply⟩
    · exact (ih hProper.2 hInner).mono .operand
    · obtain ⟨hFault, rfl⟩ := ofExcept_eq_error_iff.mp hApply
      obtain ⟨hKind, hNumber, rfl⟩ := applyUnary_eq_fault_iff.mp hFault
      exact ⟨_, _, .here, .operand hKind hOperand hNumber⟩
  | binary left o right ihLeft ihRight =>
    obtain ⟨hKind, hProperLeft, hProperRight⟩ := hProper
    rcases bind_eq_error_iff.mp h with hInner | ⟨a, l, hLeft, hRest⟩
    · exact (ihLeft hProperLeft hInner).mono .binaryLeft
    · rcases bind_eq_error_iff.mp hRest with hInner | ⟨b, n, hRight, hApply⟩
      · exact (ihRight hProperRight hInner).mono (.binaryRight hLeft)
      · obtain ⟨hFault, rfl⟩ := ofExcept_eq_error_iff.mp hApply
        exact caused_of_applyBinary hKind hLeft hRight hFault
  | logical left o right ihLeft ihRight =>
    obtain ⟨-, hProperLeft, hProperRight⟩ := hProper
    rcases bind_eq_error_iff.mp h with hInner | ⟨a, l, hLeft, hRest⟩
    · exact (ihLeft hProperLeft hInner).mono .logicalLeft
    · have hIf : (if settles o a then pure a else eval right : Run Value) l = _ := hRest
      cases hOpen : settles o a with
      | true =>
        rw [hOpen] at hIf
        cases hIf
      | false =>
        rw [hOpen] at hIf
        exact (ihRight hProperRight hIf).mono (.logicalRight hLeft hOpen)
  | «variable» name =>
    obtain ⟨hUnbound, rfl, rfl⟩ := lookUp_eq_fault_iff.mp h
    exact ⟨_, _, .here, .unboundVariable hUnbound⟩
  | assign name value ih =>
    rcases bind_eq_error_iff.mp h with hInner | ⟨v, n, hValue, hRest⟩
    · exact (ih hProper.2 hInner).mono .assigned
    · rcases bind_eq_error_iff.mp hRest with hAssign | ⟨_, _, _, hPure⟩
      · obtain ⟨hUnbound, rfl, rfl⟩ := assign_eq_fault_iff.mp hAssign
        exact ⟨_, _, .here, .unboundTarget hValue hUnbound⟩
      · cases hPure
  | stray node => cases h

end

-- ---------------------------------------------------------------------------
-- Statements
-- ---------------------------------------------------------------------------

/-- Statements break off at a node that they come to and that fails there, and leave its blocks. -/
def Stmt.Caused (statements : List Stmt) (m : Machine) (f : Fault) (after : Machine) : Prop :=
  ∃ x n depth k, Stmt.AllReach statements m x n depth ∧ x.Fails n f.token f.message k ∧
    after = k.leave depth

section

variable {e c x : Expr} {s : Stmt} {other : Option Stmt} {statements rest : List Stmt}
  {m n k after : Machine} {f : Fault} {rounds depth : Nat}

theorem Expr.Caused.statement (h : e.Caused m f k)
    (hReach : ∀ {x n}, e.Reaches m x n → Stmt.AllReach statements m x n 0) :
    Stmt.Caused statements m f k := by
  obtain ⟨x, n, hReaches, hFails⟩ := h
  exact ⟨x, n, 0, k, hReach hReaches, hFails, rfl⟩

theorem Stmt.Caused.mono {others : List Stmt} {m' : Machine} (h : Stmt.Caused statements m f after)
    (hReach : ∀ {x n depth}, Stmt.AllReach statements m x n depth →
      Stmt.AllReach others m' x n depth) : Stmt.Caused others m' f after := by
  obtain ⟨x, n, depth, k, hReaches, hFails, hAfter⟩ := h
  exact ⟨x, n, depth, k, hReach hReaches, hFails, hAfter⟩

/-- A block that breaks off is left once more. -/
theorem Stmt.Caused.block (h : Stmt.Caused statements m.push f after) :
    Stmt.Caused (.block statements :: rest) m f after.pop := by
  obtain ⟨x, n, depth, k, hReaches, hFails, rfl⟩ := h
  exact ⟨x, n, depth + 1, k, .block hReaches, hFails, rfl⟩

/-- By induction on the rounds that the loop may take. -/
theorem caused_of_iterate {limit : Nat} (hProper : c.Proper)
    (hBody : ∀ {k l : Machine}, exec rounds s k = .error (.fault f) l → Stmt.Caused [s] k f l)
    (h : iterate limit (test c) (exec rounds s) m = .error (.fault f) after) (rest : List Stmt) :
    Stmt.Caused (.whileLoop c s :: rest) m f after := by
  induction limit generalizing m rest with
  | zero => cases h
  | succ limit ih =>
    unfold iterate at h
    cases hTest : test c m with
    | error halt k =>
      rw [hTest] at h
      cases h
      exact (caused_of_eval hProper (test_eq_error_iff.mp hTest)).statement .loopCondition
    | ok truth k =>
      rw [hTest] at h
      cases truth with
      | false => cases h
      | true =>
        dsimp only at h
        cases hRound : exec rounds s k with
        | error halt l =>
          rw [hRound] at h
          cases h
          exact (hBody hRound).mono (.loopBody hTest)
        | ok done l =>
          rw [hRound] at h
          exact (ih h []).mono (.loopAgain hTest ⟨trivial, rounds, hRound⟩)

mutual

theorem caused_of_exec (rounds : Nat) : (s : Stmt) → s.Proper → {m after : Machine} →
    {f : Fault} → exec rounds s m = .error (.fault f) after → (rest : List Stmt) →
      Stmt.Caused (s :: rest) m f after
  | .expression e, hProper, _, _, _, h, rest => by
    rcases bind_eq_error_iff.mp h with hInner | ⟨_, _, _, hPure⟩
    · exact (caused_of_eval hProper hInner).statement .expression
    · cases hPure
  | .print e, hProper, _, _, _, h, rest => by
    rcases bind_eq_error_iff.mp h with hInner | ⟨_, _, _, hPrint⟩
    · exact (caused_of_eval hProper hInner).statement .print
    · cases hPrint
  | .varDecl name none, _, _, _, _, h, rest => by cases h
  | .varDecl name (some e), hProper, _, _, _, h, rest => by
    rcases bind_eq_error_iff.mp h with hInner | ⟨_, _, _, hDefine⟩
    · exact (caused_of_eval hProper.2 hInner).statement .initializer
    · cases hDefine
  | .block body, hProper, m, _, _, h, rest => by
    have hLeave : Ending.leave (execAll rounds body m.push) = _ := (inNewScope_eq ..).symm.trans h
    cases hBody : execAll rounds body m.push with
    | ok done inner =>
      rw [hBody] at hLeave
      cases hLeave
    | error halt inner =>
      rw [hBody] at hLeave
      cases hLeave
      exact (caused_of_execAll rounds body hProper hBody).block
  | .ifElse condition thenBranch none, hProper, m, _, _, h, rest => by
    rcases bind_eq_error_iff.mp h with hTest | ⟨truth, k, hTest, hBranch⟩
    · exact (caused_of_eval hProper.1 (test_eq_error_iff.mp hTest)).statement .condition
    · cases truth with
      | true =>
        exact (caused_of_exec rounds thenBranch hProper.2 hBranch []).mono (.thenBranch hTest)
      | false => cases hBranch
  | .ifElse condition thenBranch (some elseBranch), hProper, m, _, _, h, rest => by
    rcases bind_eq_error_iff.mp h with hTest | ⟨truth, k, hTest, hBranch⟩
    · exact (caused_of_eval hProper.1 (test_eq_error_iff.mp hTest)).statement .condition
    · cases truth with
      | true =>
        exact (caused_of_exec rounds thenBranch hProper.2.1 hBranch []).mono (.thenBranch hTest)
      | false =>
        exact (caused_of_exec rounds elseBranch hProper.2.2 hBranch []).mono (.elseBranch hTest)
  | .whileLoop condition body, hProper, _, _, _, h, rest =>
    caused_of_iterate hProper.1 (fun hRound => caused_of_exec rounds body hProper.2 hRound []) h rest
  | .stray node, hProper, _, _, _, _, _ => hProper.elim

/-- Every fault of statements has a cause. -/
theorem caused_of_execAll (rounds : Nat) : (statements : List Stmt) →
    Stmt.AllProper statements → {m after : Machine} → {f : Fault} →
      execAll rounds statements m = .error (.fault f) after → Stmt.Caused statements m f after
  | [], _, _, _, _, h => by cases h
  | s :: rest, hProper, _, _, _, h => by
    rcases bind_eq_error_iff.mp h with hFirst | ⟨_, k, hFirst, hRest⟩
    · exact caused_of_exec rounds s hProper.1 hFirst rest
    · exact (caused_of_execAll rounds rest hProper.2 hRest).mono
        (.later ⟨trivial, rounds, hFirst⟩)

end

theorem allEnd_of_ends {halt : Halt} (h : s.Ends m (.error halt k)) (rest : List Stmt) :
    Stmt.AllEnd (s :: rest) m (.error halt k) :=
  allEnd_cons_iff.mpr (.inl ⟨halt, k, h, rfl⟩)

theorem ends_of_allEnd_single {halt : Halt} (h : Stmt.AllEnd [s] m (.error halt k)) :
    s.Ends m (.error halt k) := by
  rcases allEnd_cons_iff.mp h with ⟨_, _, hEnds, hSame⟩ | ⟨_, _, -, _, hNone⟩
  · cases hSame
    exact hEnds
  · cases hNone

theorem ends_ifElse {truth : Bool} {branch : Stmt} {halt : Halt} (hTest : test c m = .ok truth k)
    (hBranch : (if truth then some s else other) = some branch)
    (h : branch.Ends k (.error halt n)) : (Stmt.ifElse c s other).Ends m (.error halt n) := by
  obtain ⟨hFinished, rounds, hRun⟩ := h
  refine ⟨hFinished, rounds, ?_⟩
  cases other with
  | none =>
    refine (bind_of_ok hTest).trans ?_
    cases truth with
    | true =>
      cases hBranch
      exact hRun
    | false => cases hBranch
  | some elseBranch =>
    refine (bind_of_ok hTest).trans ?_
    cases truth with
    | true =>
      cases hBranch
      exact hRun
    | false =>
      cases hBranch
      exact hRun

/-- Every node that fails where statements come to it breaks them off. -/
theorem allEnd_of_allReach (h : Stmt.AllReach statements m x n depth)
    (hFault : eval x n = .error (.fault f) k) :
    Stmt.AllEnd statements m (.error (.fault f) (k.leave depth)) := by
  induction h with
  | expression h =>
    refine allEnd_of_ends ?_ _
    exact ⟨trivial, 0, bind_of_error (h.eval_eq_error hFault)⟩
  | print h =>
    refine allEnd_of_ends ?_ _
    exact ⟨trivial, 0, bind_of_error (h.eval_eq_error hFault)⟩
  | initializer h =>
    refine allEnd_of_ends ?_ _
    exact ⟨trivial, 0, bind_of_error (h.eval_eq_error hFault)⟩
  | @block body rest x m n depth _ ih =>
    have hBlock : (Stmt.block body).Ends m (.error (.fault f) (k.leave depth).pop) :=
      comesTo_inNewScope.mpr ⟨_, ih hFault, rfl⟩
    exact allEnd_of_ends hBlock rest
  | @condition c x s other rest m n h =>
    have hTest := test_eq_error_iff.mpr (h.eval_eq_error hFault)
    refine allEnd_of_ends ?_ rest
    cases other with
    | none => exact ⟨trivial, 0, bind_of_error hTest⟩
    | some elseBranch => exact ⟨trivial, 0, bind_of_error hTest⟩
  | thenBranch hTest _ ih =>
    exact allEnd_of_ends (ends_ifElse hTest rfl (ends_of_allEnd_single (ih hFault))) _
  | elseBranch hTest _ ih =>
    exact allEnd_of_ends (ends_ifElse hTest rfl (ends_of_allEnd_single (ih hFault))) _
  | loopCondition h =>
    exact allEnd_of_ends
      (ends_while_of_error (test_eq_error_iff.mpr (h.eval_eq_error hFault))) _
  | loopBody hTest _ ih =>
    exact allEnd_of_ends (ends_while_of_halt hTest (ends_of_allEnd_single (ih hFault))) _
  | loopAgain hTest hRound _ ih =>
    exact allEnd_of_ends
      (ends_while_of_true hTest hRound (ends_of_allEnd_single (ih hFault))) _
  | later hFirst _ ih => exact allEnd_cons_iff.mpr (.inr ⟨_, hFirst, ih hFault⟩)

end

-- ---------------------------------------------------------------------------
-- Faults
-- ---------------------------------------------------------------------------

/--
A fault points at its cause. A tree that was read breaks off with a fault exactly
if its run comes to a node in it that fails there: the fault has the token and the
wording of that failure. What was printed by then stays, and so do all bindings
but those of the scopes that were opened on the way.
-/
theorem faults_iff (tokens : List Token) (m after : Machine) (f : Fault) :
    let statements := (Parse.program tokens).statements
    (∃ rounds, execAll rounds statements m = .error (.fault f) after) ↔
      ∃ x n depth k, Stmt.AllReach statements m x n depth ∧
        (∃ c : Stmt.ListContext, c.fill x = statements) ∧ x.Fails n f.token f.message k ∧
        after = k.leave depth ∧ after.printed = k.printed ∧
        after.environment.scopes = k.environment.scopes.drop depth := by
  intro statements
  constructor
  · rintro ⟨rounds, hRun⟩
    obtain ⟨x, n, depth, k, hReaches, hFails, rfl⟩ :=
      caused_of_execAll rounds statements (Parse.allProper_program tokens) hRun
    have hDepth : depth ≤ k.environment.enclosing.length := by
      rw [hFails.length_enclosing, hReaches.length_enclosing]
      exact Nat.le_add_left ..
    exact ⟨x, n, depth, k, hReaches, hReaches.exists_context, hFails, rfl, k.printed_leave depth,
      Machine.scopes_leave hDepth⟩
  · rintro ⟨x, n, depth, k, hReaches, -, hFails, rfl, -, -⟩
    obtain ⟨g, hToken, hMessage, hEval⟩ := hFails.eval_eq_error
    rw [← Fault.eq_of_message hToken hMessage]
    exact (allEnd_of_allReach hReaches hEval).2

end Scriptlet
