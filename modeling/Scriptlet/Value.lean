import Scriptlet.Number.Shortest

/-!
# Scriptlet — values

The four kinds of runtime value, what counts as true, equality and the printed
text. Values of different kinds are never equal, and numbers compare as IEEE
doubles: a NaN differs from itself, and the two zeros are equal.

## Results

* `Value.isTruthy`       — all but nil and false.
* `Value.equals`         — equality of the language.
* `Value.shown`          — what `print` shows.
* `numberText`           — how a number is shown.
-/

namespace Scriptlet

open Scriptlet.Number

/-- A value of the language. -/
inductive Value where
  | nil
  | bool (b : Bool)
  | number (x : Float)
  | text (s : String)
  deriving Inhabited

/-- Numbers are written positionally for decimal exponents from -4 up to 15. -/
def numberLayout : Layout where
  leastPositional := -4
  firstScientific := 16
  exponentDigits := 2

/-- The text of a double: the fewest digits that read back, without a trailing point zero. -/
def numberText (x : Float) : String :=
  let bits := magnitude x
  let sign := if isNegative x then "-" else ""
  if infinityBits < bits then "nan"
  else if bits = infinityBits then sign ++ "inf"
  else if bits = 0 then sign ++ "0"
  else sign ++ String.ofList (numberLayout.text (shortest bits))

namespace Value

/-- Everything but nil and false counts as true. -/
def isTruthy : Value → Bool
  | nil => false
  | bool b => b
  | _ => true

/-- Whether a value is a number. -/
def isNumber : Value → Bool
  | number _ => true
  | _ => false

/-- Equality of the language: same kind and same value. -/
def equals : Value → Value → Bool
  | nil, nil => true
  | bool a, bool b => a == b
  | number a, number b => a == b
  | text a, text b => a == b
  | _, _ => false

/-- The text that `print` shows. -/
def shown : Value → String
  | nil => "nil"
  | bool true => "true"
  | bool false => "false"
  | number x => numberText x
  | text s => s

end Value

end Scriptlet
