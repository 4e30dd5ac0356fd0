import Scriptlet.Proofs.Lexer.WrittenOut
import Scriptlet.Proofs.Number.Rounding
import Scriptlet.Proofs.Number.ShownNumbers

/-!
# Scriptlet — the values of number tokens

A number in source text is written with digits, maybe with a point among them,
and denotes a rational, however many digits there are. The value of its token is
that rational correctly rounded, so it is neither negative nor a NaN, and larger
numbers have larger values, or the same.

## Results

* `denoted`                 — what a number's text denotes.
* `value_plain_roundedTo`   — the digits are rounded once, as a whole.
* `numbers_correctly_rounded` — the value of every number token of every source.
-/

namespace Scriptlet

open Scriptlet.Text Scriptlet.Number

/-- What a number's text denotes: its digits, those behind the point as a decimal fraction. -/
def denoted (text : List Char) : ℚ :=
  let whole := text.takeWhile isDigit
  let fraction := (text.dropWhile isDigit).drop 1
  ofDigits whole + ofDigits fraction / 10 ^ fraction.length

/-- All digits of a number are rounded at once. -/
theorem value_plain_roundedTo (text : List Char) :
    RoundedTo (denoted text) (Numeral.plain text).value := by
  have hTen : 0 < Nat.pow 10 (Numeral.plain text).fraction.length :=
    pow_pos_of_pos (by decide) _
  have hDenoted : denoted text = ((Numeral.plain text).significand : ℚ) /
      (Nat.pow 10 (Numeral.plain text).fraction.length : Nat) := by
    have hPower : (10 : ℚ) ^ (Numeral.plain text).fraction.length ≠ 0 := pow_ne_zero _ (by norm_num)
    rw [Numeral.significand, ofDigits_append, Nat.pow_eq, Nat.cast_add, Nat.cast_mul, Nat.cast_pow,
      Nat.cast_ofNat, add_div, mul_div_cancel_right₀ _ hPower]
    rfl
  rw [Numeral.value_plain, hDenoted]
  exact roundedTo_nearest _ hTen

/-- A number token is digits, maybe with a point between two of them, and has the value of those. -/
theorem rule_of_number {source : String} {t : Token} (ht : t ∈ (lex source).1)
    (hNumber : t.kind = .number) :
    TokenRule t.lexeme.toList .number (.number (Numeral.plain t.lexeme.toList).value) ∧
      t.literal = .number (Numeral.plain t.lexeme.toList).value := by
  have hCut := cut_of_mem_lex ht (by simp [hNumber])
  rw [hNumber] at hCut
  cases hCut with
  | token hRule =>
    have hLiteral := value_eq hRule
    rw [if_pos rfl] at hLiteral
    rw [hLiteral] at hRule
    exact ⟨hRule, hLiteral⟩

theorem text_of_number {text : List Char} {x : Float} (h : TokenRule text .number (.number x)) :
    ∃ c cs, text = c :: cs ∧ isDigit c ∧ NumberTail cs := by
  cases h with
  | whole hFirst hDigits => exact ⟨_, _, rfl, hFirst, .inl hDigits⟩
  | decimal hFirst hDigits hSecond hFraction =>
    exact ⟨_, _, rfl, hFirst, .inr ⟨_, _, _, rfl, hDigits, hSecond, hFraction⟩⟩

/--
The value of a number token is what its digits denote, correctly rounded; so it
is not negative, and the values of two number tokens, of one source or of two,
are in the order of what their digits denote.
-/
theorem numbers_correctly_rounded {source : String} {t : Token} (ht : t ∈ (lex source).1)
    (hNumber : t.kind = .number) :
    ∃ x : Float, t.literal = .number x ∧ RoundedTo (denoted t.lexeme.toList) x ∧ 0 ≤ x ∧
      (∃ c cs, t.lexeme.toList = c :: cs ∧ isDigit c ∧ NumberTail cs) ∧
      ∀ {other : String} {u : Token} {y : Float}, u ∈ (lex other).1 → u.kind = .number →
        u.literal = .number y → denoted t.lexeme.toList ≤ denoted u.lexeme.toList → x ≤ y := by
  obtain ⟨hRule, hLiteral⟩ := rule_of_number ht hNumber
  have hRounded := value_plain_roundedTo t.lexeme.toList
  refine ⟨_, hLiteral, hRounded, hRounded.nonneg, text_of_number hRule, ?_⟩
  intro other u y hu hNumber' hLiteral' hLess
  rw [(rule_of_number hu hNumber').2] at hLiteral'
  obtain rfl := Value.number.inj hLiteral'
  exact hRounded.le (value_plain_roundedTo _) hLess

/-- A number halfway between two doubles, and one just above it. -/
theorem numbers_correctly_rounded_tie :
    let halfway := "9007199254740993"
    let above := "9007199254740993.0000000000000000001"
    let x := Float.ofBits 0x4340000000000000
    let y := Float.ofBits 0x4340000000000001
    ∃ t ∈ (lex halfway).1, ∃ u ∈ (lex above).1, t.literal = .number x ∧ u.literal = .number y ∧
      RoundedTo 9007199254740993 x ∧ x ≤ y := by
  intro halfway above x y
  have hOnly (text : String) (h : (lex text).1.map (fun t => (t.kind, t.lexeme)) =
      [(.number, text), (.eof, "")]) : ∃ t ∈ (lex text).1, t.kind = .number ∧ t.lexeme = text := by
    obtain ⟨t, ht, hParts⟩ := List.mem_map.mp (h ▸ List.mem_cons_self)
    exact ⟨t, ht, (Prod.mk.inj hParts).1, (Prod.mk.inj hParts).2⟩
  obtain ⟨t, ht, hNumberT, hTextT⟩ := hOnly halfway (by decide +kernel)
  obtain ⟨u, hu, hNumberU, hTextU⟩ := hOnly above (by decide +kernel)
  have hX : (Numeral.plain halfway.toList).value = x := by decide +kernel
  have hY : (Numeral.plain above.toList).value = y := by decide +kernel
  have hLiteralU : u.literal = .number y := by
    rw [(rule_of_number hu hNumberU).2, hTextU, hY]
  obtain ⟨z, hLiteral, hRounded, -, -, hOrder⟩ := numbers_correctly_rounded ht hNumberT
  have hLiteralT : t.literal = .number x := by
    rw [(rule_of_number ht hNumberT).2, hTextT, hX]
  obtain rfl := Value.number.inj (hLiteralT.symm.trans hLiteral)
  have hDenoted : denoted halfway.toList = 9007199254740993 := by decide +kernel
  have hLess : denoted halfway.toList ≤ denoted above.toList := by decide +kernel
  rw [hTextT] at hRounded hOrder
  refine ⟨t, ht, u, hu, hLiteralT, hLiteralU, hDenoted ▸ hRounded, ?_⟩
  exact hOrder hu hNumberU hLiteralU (hTextU ▸ hLess)

end Scriptlet
