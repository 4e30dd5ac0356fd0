import Scriptlet.Tree.Basic

/-!
# Scriptlet — faults

A fault is an error of a running program. It names the token at which the run
broke off and the cause.

* `Fault`          — a token and a cause.
* `Fault.message`  — the wording.
* `Halt`           — the ways in which a run ends early.
-/

namespace Scriptlet

/-- Why a run broke off. -/
inductive FaultCause where
  | undefinedVariable
  | operandNotNumber
  | operandsNotNumbers
  /-- The operands of `+` are neither two numbers nor two strings. -/
  | operandsDiffer
  | divisionByZero
  deriving DecidableEq, Repr

/-- An error of a running program. -/
structure Fault where
  token : Token
  cause : FaultCause

/-- The fault of a name that no scope binds. -/
def Fault.undefined (name : Token) : Fault where
  token := name
  cause := .undefinedVariable

/-- The wording of a fault. -/
def Fault.message (f : Fault) : String :=
  match f.cause with
  | .undefinedVariable => "Undefined variable '" ++ f.token.lexeme ++ "'."
  | .operandNotNumber => "Operand must be a number."
  | .operandsNotNumbers => "Operands must be numbers."
  | .operandsDiffer => "Operands must be two numbers or two strings."
  | .divisionByZero => "Division by zero."

/-- Why a run ended early. -/
inductive Halt where
  | fault (f : Fault)
  | defect (d : Defect)
  /-- A loop took more rounds than it was allowed. -/
  | unfinished

end Scriptlet
