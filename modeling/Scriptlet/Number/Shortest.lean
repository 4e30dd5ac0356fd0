import Scriptlet.Number.Binary64
import Scriptlet.Text.Digit

/-!
# Scriptlet — the fewest digits that read back

A double is written with the fewest significant digits whose nearest double it
is, and among those with the nearest. Every double is a whole number of units of
`10 ^ -1074`, so the search goes over the decimal grids of one digit, two digits
and so on, and looks at the two points of each grid around the value.

## Results

* `Decimal.bits`        — the double nearest to a decimal.
* `onGrid`              — the nearest point of a grid that reads back, if any.
* `shortest`            — the decimal of the coarsest grid that has one.
* `bits_onGrid`         — what a grid gives reads back.
-/

namespace Scriptlet.Number

open Scriptlet.Text

/-- The rational `digits · 10 ^ exponent`. -/
structure Decimal where
  digits : Nat
  exponent : Int
  deriving Repr, DecidableEq

/-- The bit pattern of the double nearest to a decimal. -/
def Decimal.bits (d : Decimal) : Nat :=
  nearest (d.digits * Nat.pow 10 d.exponent.toNat) (Nat.pow 10 (-d.exponent).toNat)

/-- The value of a bit pattern in units of `10 ^ -1074`. -/
def decimalUnits (bits : Nat) : Nat := units bits * Nat.pow 5 1074

/-- How many decimal digits a number has. -/
def digitCount (n : Nat) : Nat := if n < 10 then 1 else digitCount (n / 10) + 1
termination_by n
decreasing_by omega

/--
The two neighbours of a whole number of decimal units on the grid of the
multiples of `10 ^ places`, the nearer one first and an even one first where both
are equally near.
-/
def neighbours (value places : Nat) : List Decimal :=
  let step := Nat.pow 10 places
  let low := value / step
  let remainder := value % step
  let order :=
    if 2 * remainder < step ∨ (2 * remainder = step ∧ low % 2 = 0) then [low, low + 1]
    else [low + 1, low]
  order.map ({ digits := ·, exponent := (places : Int) - 1074 })

/-- The nearest point of a grid that reads back, if one does. -/
def onGrid (bits value places : Nat) : Option Decimal :=
  (neighbours value places).find? (·.bits == bits)

/--
The decimal with the fewest digits that reads back. Seventeen digits tell any
two doubles apart, so the exact value behind the search is never needed.
-/
def shortest (bits : Nat) : Decimal :=
  let value := decimalUnits bits
  let count := digitCount value
  ((List.range 17).findSome? fun k => onGrid bits value (count - (k + 1))).getD
    { digits := value, exponent := -1074 }

/-- What a grid gives reads back. -/
theorem bits_onGrid {bits value places : Nat} {d : Decimal}
    (h : onGrid bits value places = some d) : d.bits = bits := by
  have := List.find?_some h
  simpa using this

/-- A number has as many digits as are written of it. -/
theorem digitCount_eq_length (n : Nat) : digitCount n = (digits n).length := by
  fun_induction digitCount n with
  | case1 n h => rw [digits, if_pos h, List.length_singleton]
  | case2 n h ih => rw [digits, if_neg h, List.length_append, ih, List.length_singleton]

-- ---------------------------------------------------------------------------
-- Layout
-- ---------------------------------------------------------------------------

/-- How a decimal is laid out. -/
structure Layout where
  /-- The least decimal exponent that is still written with a point and zeros. -/
  leastPositional : Int
  /-- The first decimal exponent that is no longer written positionally. -/
  firstScientific : Int
  /-- The least number of digits of a written exponent. -/
  exponentDigits : Nat

/-- Digits that end in no zero; a lone zero is left. -/
def trimZeros (ds : List Char) : List Char := (ds.reverse.dropWhile (· == '0')).reverse

/-- Digits with a point after the first `point` of them; zeros fill the gap on either side. -/
def positional (ds : List Char) (point : Int) : List Char :=
  if point ≤ 0 then '0' :: '.' :: (List.replicate (-point).toNat '0' ++ ds)
  else if ds.length ≤ point.toNat then ds ++ List.replicate (point.toNat - ds.length) '0'
  else ds.take point.toNat ++ '.' :: ds.drop point.toNat

/-- An exponent with its sign and at least `count` digits. -/
def exponentText (count : Nat) (e : Int) : List Char :=
  let ds := digits e.natAbs
  (if e < 0 then '-' else '+') :: (List.replicate (count - ds.length) '0' ++ ds)

/-- One digit, a point and the others if there are any, and the exponent. -/
def scientific (count : Nat) (ds : List Char) (e : Int) : List Char :=
  let mantissa := match ds with
    | [] => []
    | [d] => [d]
    | d :: rest => d :: '.' :: rest
  mantissa ++ 'e' :: exponentText count e

/-- The text of a decimal that is not zero. -/
def Layout.text (layout : Layout) (d : Decimal) : List Char :=
  let ds := digits d.digits
  let point : Int := ds.length + d.exponent
  let e := point - 1
  if layout.leastPositional ≤ e ∧ e < layout.firstScientific then positional (trimZeros ds) point
  else scientific layout.exponentDigits (trimZeros ds) e

end Scriptlet.Number
