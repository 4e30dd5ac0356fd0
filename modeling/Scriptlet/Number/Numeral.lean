import Scriptlet.Number.Binary64
import Scriptlet.Text.Blank
import Scriptlet.Text.Digit

/-!
# Scriptlet — reading numerals

A numeral is a sign, digits before and after the point, and a power of ten.
Source text writes the plain ones, `12` or `12.5`; a numeral read as a whole may
also carry blanks around it, a sign, single underscores between digits, an
exponent, and digits of any script. Its double is the one nearest to the
rational that it denotes.

## Results

* `Numeral.plain`   — the numeral of `12` or `12.5`.
* `Numeral.read?`   — the general form, `none` where the text is no numeral.
* `Numeral.value`   — the nearest double.
* `value_plain`     — a plain numeral is rounded once, from its digits.
-/

namespace Scriptlet.Number

open Scriptlet.Text

/-- A decimal numeral: a sign, digits before and after the point, and a power of ten. -/
structure Numeral where
  negative : Bool := false
  whole : List Char
  fraction : List Char := []
  exponent : Int := 0
  deriving Repr, DecidableEq

namespace Numeral

/-- The digits of a numeral as one whole number. -/
def significand (n : Numeral) : Nat := ofDigits (n.whole ++ n.fraction)

/--
The exponent, brought within reach of the digits. From here on a larger or
smaller exponent changes nothing any more: a numeral other than zero is
infinite, or so small that it rounds to zero.
-/
def effectiveExponent (n : Numeral) : Int :=
  let reach : Int := 400 + (n.whole.length + n.fraction.length : Nat)
  max (-reach) (min reach n.exponent)

/-- The double nearest to what the numeral denotes. -/
def value (n : Numeral) : Float :=
  let e := n.effectiveExponent
  ofMagnitude n.negative
    (nearest (n.significand * Nat.pow 10 e.toNat)
      (Nat.pow 10 ((-e).toNat + n.fraction.length)))

-- ---------------------------------------------------------------------------
-- Plain numerals
-- ---------------------------------------------------------------------------

/-- The numeral of digits, or of digits, a point and more digits. -/
def plain (text : List Char) : Numeral where
  whole := text.takeWhile isDigit
  fraction := (text.dropWhile isDigit).drop 1

/-- A plain numeral is rounded once, from all its digits. -/
theorem value_plain (text : List Char) :
    (plain text).value =
      ofMagnitude false
        (nearest (plain text).significand (Nat.pow 10 (plain text).fraction.length)) := by
  have h : (plain text).effectiveExponent = 0 := by
    simp only [effectiveExponent, plain]
    omega
  have hn : (plain text).negative = false := rfl
  simp [value, h, hn]

-- ---------------------------------------------------------------------------
-- The general form
-- ---------------------------------------------------------------------------

/-- Writes blanks and digits of all scripts in ASCII; `none` where another character occurs. -/
def toAscii? (cs : List Char) : Option (List Char) :=
  cs.mapM fun c =>
    if c.toNat < 128 then some c
    else if isBlank c then some ' '
    else (digitValue? c).map digitChar

/-- Drops underscores, each of which has to stand between two digits. -/
def dropUnderscores? : (last : Option Char) → List Char → Option (List Char)
  | _, [] => some []
  | last, '_' :: rest =>
    if last.any isDigit && rest.head?.any isDigit then dropUnderscores? (some '_') rest
    else none
  | _, c :: rest => (dropUnderscores? (some c) rest).map (c :: ·)

/-- A sign, if there is one, and the rest. -/
def takeSign : List Char → Bool × List Char
  | '-' :: rest => (true, rest)
  | '+' :: rest => (false, rest)
  | rest => (false, rest)

/-- An exponent, which has to fill the text if there is any. -/
def readExponent? : List Char → Option Int
  | [] => some 0
  | c :: rest =>
    let (negative, digits) := takeSign rest
    if (c == 'e' || c == 'E') && !digits.isEmpty && digits.all isDigit then
      some (if negative then -(ofDigits digits) else ofDigits digits)
    else none

/-- A numeral without blanks around it and without underscores. -/
def readBare? (cs : List Char) : Option Numeral :=
  let (negative, rest) := takeSign cs
  let whole := rest.takeWhile isDigit
  let rest := rest.dropWhile isDigit
  let (fraction, rest) := match rest with
    | '.' :: rest => (rest.takeWhile isDigit, rest.dropWhile isDigit)
    | rest => ([], rest)
  if whole.isEmpty && fraction.isEmpty then none
  else (readExponent? rest).map ({ negative, whole, fraction, exponent := · })

/-- Reads a numeral of the general form. -/
def read? (text : List Char) : Option Numeral := do
  let ascii ← toAscii? text
  let digits ← dropUnderscores? none ascii
  readBare? (stripWhere isAsciiBlank digits)

end Numeral

end Scriptlet.Number
