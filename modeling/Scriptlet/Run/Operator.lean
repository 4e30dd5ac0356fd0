import Scriptlet.Run.Fault

/-!
# Scriptlet — operators

What the operators do to values. An operator is the token it was written as: a
fault points at it, and a token that is no operator at all is a defect of the
tree, found out once its operands are known to fit.

* `applyUnary`, `applyBinary` — an operator applied to values.
* `settles`                   — whether a left operand settles `and` or `or`.
-/

namespace Scriptlet

/-- A fault of an operator. -/
def operatorFault {α : Type} (operator : Token) (cause : FaultCause) : Except Halt α :=
  .error (.fault { token := operator, cause })

/-- A unary operator applied to a value. -/
def applyUnary (operator : Token) (operand : Value) : Except Halt Value :=
  match operator.kind with
  | .minus =>
    match operand with
    | .number x => .ok (.number (-x))
    | _ => operatorFault operator .operandNotNumber
  | .bang => .ok (.bool !operand.isTruthy)
  | _ => .error (.defect (.unknownUnary operator.lexeme))

/-- A binary operator applied to two numbers, `+`, `==` and `!=` aside. -/
def applyToNumbers (operator : Token) (a b : Float) : Except Halt Value :=
  match operator.kind with
  | .greater => .ok (.bool (a > b))
  | .greaterEqual => .ok (.bool (a ≥ b))
  | .less => .ok (.bool (a < b))
  | .lessEqual => .ok (.bool (a ≤ b))
  | .minus => .ok (.number (a - b))
  | .star => .ok (.number (a * b))
  | .slash => if b == 0 then operatorFault operator .divisionByZero else .ok (.number (a / b))
  | _ => .error (.defect (.unknownBinary operator.lexeme))

/-- A binary operator applied to two values. -/
def applyBinary (operator : Token) (left right : Value) : Except Halt Value :=
  match operator.kind with
  | .equalEqual => .ok (.bool (left.equals right))
  | .bangEqual => .ok (.bool !left.equals right)
  | .plus =>
    match left, right with
    | .number a, .number b => .ok (.number (a + b))
    | .text a, .text b => .ok (.text (a ++ b))
    | _, _ => operatorFault operator .operandsDiffer
  | _ =>
    match left, right with
    | .number a, .number b => applyToNumbers operator a b
    | _, _ => operatorFault operator .operandsNotNumbers

/-- Whether the left operand settles the value: a true one for `or`, and else a false one. -/
def settles (operator : Token) (left : Value) : Bool :=
  if operator.kind = .orKw then left.isTruthy else !left.isTruthy

end Scriptlet
