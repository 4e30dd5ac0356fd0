/-!
# Scriptlet — the grid of doubles

A finite double that is not negative is a whole number of units of `2 ^ -1074`,
and its bit pattern, read as a number, is its place in increasing order. Both
facts together make rounding a matter of whole numbers: a rational is scaled to
units, the last significant place is found, and the quotient is rounded once.

* `units`      — the value of a bit pattern, in units of `2 ^ -1074`.
* `nearest`    — the bit pattern of the double nearest to a quotient; a tie goes
  to the even significand, and what rounds past the largest double is infinity.
* `roundDiv`   — a quotient rounded to a whole number, a half going to the even one.
* `ofMagnitude`, `magnitude`, `isNegative` — a double as a sign and a bit pattern.
-/

namespace Scriptlet.Number

/-- Quotient rounded to the nearest whole number; a half goes to the even neighbour. -/
def roundDiv (num den : Nat) : Nat :=
  let quotient := num / den
  let remainder := num % den
  if 2 * remainder < den ∨ (2 * remainder = den ∧ quotient % 2 = 0) then quotient
  else quotient + 1

/-- The significand of a bit pattern, with the leading one that normal doubles leave out. -/
def significand (bits : Nat) : Nat :=
  if bits < Nat.pow 2 52 then bits else Nat.pow 2 52 + bits % Nat.pow 2 52

/-- How many binary places the significand stands above the unit. -/
def shift (bits : Nat) : Nat := bits / Nat.pow 2 52 - 1

/-- The value of a bit pattern in units of `2 ^ -1074`. -/
def units (bits : Nat) : Nat := significand bits * Nat.pow 2 (shift bits)

/-- The bit pattern of positive infinity, one past the largest finite double. -/
def infinityBits : Nat := 2047 * Nat.pow 2 52

/--
The bit pattern of the double nearest to `num / den`. The significand has at
most 53 places; a significand that rounds up to the next power of two carries
into the exponent field by itself, and so does the step from the subnormal
doubles to the normal ones.
-/
def nearest (num den : Nat) : Nat :=
  let scaled := num * Nat.pow 2 1074
  let place := (scaled / den).log2 - 52
  min (place * Nat.pow 2 52 + roundDiv scaled (den * Nat.pow 2 place)) infinityBits

/-- The double with the given sign and bit pattern below the sign bit. -/
def ofMagnitude (negative : Bool) (bits : Nat) : Float :=
  Float.ofBits (UInt64.ofNat (bits + if negative then Nat.pow 2 63 else 0))

/-- The bit pattern of a double without its sign bit. -/
def magnitude (x : Float) : Nat := x.toBits.toNat % Nat.pow 2 63

/-- Whether the sign bit of a double is set. -/
def isNegative (x : Float) : Bool := Nat.pow 2 63 ≤ x.toBits.toNat

/-- A remainder is never lost: the rounded quotient is the floor or the next whole number. -/
theorem roundDiv_floor_or_succ (num den : Nat) :
    roundDiv num den = num / den ∨ roundDiv num den = num / den + 1 := by
  simp only [roundDiv]
  split
  · exact Or.inl rfl
  · exact Or.inr rfl

/-- A whole quotient is not moved by rounding. -/
theorem roundDiv_mul_self (q : Nat) {den : Nat} (h : 0 < den) : roundDiv (q * den) den = q := by
  simp [roundDiv, Nat.mul_div_cancel _ h, h]

/-- No rational is read past positive infinity. -/
theorem nearest_le_infinityBits (num den : Nat) : nearest num den ≤ infinityBits :=
  Nat.min_le_right _ _

end Scriptlet.Number
