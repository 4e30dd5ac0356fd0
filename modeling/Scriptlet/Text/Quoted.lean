import Scriptlet.Text.Unprintable

/-!
# Scriptlet — quoted text

A text quoted for a message stands between single quotes, or between double
quotes if it holds a single quote and no double one. The quote in use and the
backslash get a backslash in front, line feed, carriage return and tab are
written by a letter, and a character without a printed form by its number.

* `quoted`     — a text between quotes.
* `escaped`    — what one character becomes inside.
* `hexDigits`  — a number in base sixteen with a fixed width.
-/

namespace Scriptlet.Text

/-- The digit of a value below sixteen, in lower case. -/
def hexDigit (n : Nat) : Char :=
  if n < 10 then Char.ofNat ('0'.toNat + n) else Char.ofNat ('a'.toNat + (n - 10))

/-- The last `width` digits of a number in base sixteen. -/
def hexDigits : (width : Nat) → Nat → List Char
  | 0, _ => []
  | width + 1, n => hexDigits width (n / 16) ++ [hexDigit (n % 16)]

/-- What a character becomes between the given quotes. -/
def escaped (quote c : Char) : List Char :=
  if c == quote || c == '\\' then ['\\', c]
  else if c == '\n' then ['\\', 'n']
  else if c == '\r' then ['\\', 'r']
  else if c == '\t' then ['\\', 't']
  else if !isUnprintable c then [c]
  else if c.toNat < 0x100 then '\\' :: 'x' :: hexDigits 2 c.toNat
  else if c.toNat < 0x10000 then '\\' :: 'u' :: hexDigits 4 c.toNat
  else '\\' :: 'U' :: hexDigits 8 c.toNat

/-- The quotes a text is put between: double ones only around a lone single quote. -/
def quoteFor (cs : List Char) : Char :=
  if cs.contains '\'' && !cs.contains '"' then '"' else '\''

/-- A text between quotes. -/
def quoted (text : String) : String :=
  let cs := text.toList
  let quote := quoteFor cs
  String.ofList (quote :: cs.flatMap (escaped quote) ++ [quote])

/-- A number in base sixteen takes exactly its width. -/
theorem length_hexDigits (width n : Nat) : (hexDigits width n).length = width := by
  induction width generalizing n with
  | zero => rfl
  | succ width ih => simp [hexDigits, ih]

/-- A character with a printed form that is neither quote nor backslash stands for itself. -/
theorem escaped_self {quote c : Char} (h : isUnprintable c = false) (hq : c ≠ quote)
    (hb : c ≠ '\\') (hn : c ≠ '\n') (hr : c ≠ '\r') (ht : c ≠ '\t') : escaped quote c = [c] := by
  simp [escaped, h, hq, hb, hn, hr, ht]

end Scriptlet.Text
