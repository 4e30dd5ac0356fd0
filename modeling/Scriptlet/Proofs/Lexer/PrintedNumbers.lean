import Scriptlet.Proofs.Lexer.NumberLiterals

/-!
# Scriptlet — printed numbers in source text

A number is printed with a point and zeros only, or with an exponent, and source
text has no exponents. Which of the two it is depends on the decimal that is
printed, and that may be a little smaller or larger than the double. Rounding
keeps the order, and both limits are rounded to doubles that are printed as the
limits themselves, so that what counts is the size of the double after all. A
number between the limits is printed as one number token of source text.

## Results

* `pow_length_digits`       — how many digits a number has.
* `isPositional_iff`        — the decimals that are printed without an exponent.
* `isPositional_shortest`   — the doubles that are.
* `plain_plainText`         — a numeral without an exponent in source text.
* `printed_numbers_lexed`   — what is printed of a number is lexed as that number.
-/

namespace Scriptlet

open Scriptlet.Text Scriptlet.Number

-- ---------------------------------------------------------------------------
-- The size of decimals
-- ---------------------------------------------------------------------------

/-- The number of digits tells the size. -/
theorem pow_length_digits {n : Nat} (h : 0 < n) :
    10 ^ ((digits n).length - 1) ≤ n ∧ n < 10 ^ (digits n).length := by
  fun_induction digits n with
  | case1 n hSmall => exact ⟨h, hSmall⟩
  | case2 n hLarge ih =>
    obtain ⟨hLow, hHigh⟩ := ih (by omega)
    have hSome : (digits (n / 10)).length ≠ 0 := List.length_eq_zero_iff.not.mpr (digits_ne_nil _)
    obtain ⟨k, hLength⟩ := Nat.exists_eq_succ_of_ne_zero hSome
    rw [hLength] at hLow hHigh
    rw [List.length_append, List.length_singleton, hLength]
    simp only [Nat.succ_eq_add_one, Nat.add_sub_cancel, Nat.pow_succ] at hLow hHigh ⊢
    omega

/-- A decimal lies between the powers of ten of its first digit and of the place before it. -/
theorem value_between {d : Decimal} (h : 0 < d.digits) :
    (10 : ℚ) ^ ((digits d.digits).length + d.exponent - 1) ≤ d.value ∧
      d.value < 10 ^ ((digits d.digits).length + d.exponent) := by
  have hTen : (10 : ℚ) ≠ 0 := by norm_num
  have hStep : (0 : ℚ) < 10 ^ d.exponent := by positivity
  have hSome : 0 < (digits d.digits).length := List.length_pos_iff.mpr (digits_ne_nil _)
  have hFirst : ((digits d.digits).length : Int) + d.exponent - 1 =
      ((digits d.digits).length - 1 : Nat) + d.exponent := by omega
  obtain ⟨hLow, hHigh⟩ := pow_length_digits h
  rw [hFirst, zpow_add₀ hTen, zpow_add₀ hTen, zpow_natCast, zpow_natCast, Decimal.value]
  constructor
  · exact mul_le_mul_of_nonneg_right (by exact_mod_cast hLow) hStep.le
  · exact mul_lt_mul_of_pos_right (by exact_mod_cast hHigh) hStep

/-- A layout without exponents is for the decimals between two powers of ten. -/
theorem isPositional_iff {layout : Layout} {d : Decimal} (h : 0 < d.digits) :
    layout.IsPositional d ↔
      (10 : ℚ) ^ layout.leastPositional ≤ d.value ∧ d.value < 10 ^ layout.firstScientific := by
  have hTen : (1 : ℚ) < 10 := by norm_num
  obtain ⟨hLow, hHigh⟩ := value_between h
  constructor
  · rintro ⟨hLeast, hFirst⟩
    refine ⟨(zpow_le_zpow_right₀ hTen.le hLeast).trans hLow, ?_⟩
    exact hHigh.trans_le (zpow_le_zpow_right₀ hTen.le (by omega))
  · rintro ⟨hLeast, hFirst⟩
    have hMore := (zpow_lt_zpow_iff_right₀ hTen).mp (hLeast.trans_lt hHigh)
    exact ⟨by omega, (zpow_lt_zpow_iff_right₀ hTen).mp (hLow.trans_lt hFirst)⟩

-- ---------------------------------------------------------------------------
-- The limits of the layout
-- ---------------------------------------------------------------------------

theorem roundedTo_bits (d : Decimal) : RoundedTo d.value (ofMagnitude false d.bits) := by
  rw [d.value_eq_div]
  exact roundedTo_nearest _ (pow_pos_of_pos (by decide) _)

/-- Larger decimals are rounded to larger doubles, or to the same. -/
theorem bits_le_of_value_le {d e : Decimal} (h : d.value ≤ e.value) : d.bits ≤ e.bits := by
  have hMagnitude := (roundedTo_bits d).magnitude_le (roundedTo_bits e) h
  have hBound (d : Decimal) : d.bits ≤ infinityBits := nearest_le_infinityBits _ _
  rwa [magnitude_ofMagnitude false (hBound d), magnitude_ofMagnitude false (hBound e)] at hMagnitude

/-- The least decimal that is printed without an exponent. -/
def leastPlain : Decimal where
  digits := 1
  exponent := -4

/-- The first decimal that is printed with an exponent again. -/
def firstExponential : Decimal where
  digits := 1
  exponent := 16

/-- Between the doubles of the limits numbers are printed without an exponent. -/
theorem isPositional_shortest {bits : Nat} (hLeast : leastPlain.bits ≤ bits)
    (hFirst : bits < firstExponential.bits) : numberLayout.IsPositional (shortest bits) := by
  have hPos : 0 < bits := lt_of_lt_of_le (by decide +kernel) hLeast
  have hFinite : bits < infinityBits := hFirst.trans (by decide +kernel)
  have hBits := bits_shortest hFinite
  have hLimits : (10 : ℚ) ^ numberLayout.leastPositional = leastPlain.value ∧
      (10 : ℚ) ^ numberLayout.firstScientific = firstExponential.value := by
    constructor <;> simp [Decimal.value, leastPlain, firstExponential, numberLayout]
  rw [isPositional_iff (digits_shortest_pos hPos hFinite), hLimits.1, hLimits.2]
  constructor
  · by_contra hBelow
    rw [not_le] at hBelow
    have hLess := bits_le_of_value_le hBelow.le
    rw [hBits] at hLess
    -- only the limit itself is rounded to its double from below, and it is printed as the limit
    have hSame : bits = leastPlain.bits := Nat.le_antisymm hLess hLeast
    have hPrinted : shortest leastPlain.bits = leastPlain := by decide +kernel
    rw [hSame, hPrinted] at hBelow
    exact lt_irrefl _ hBelow
  · by_contra hAbove
    rw [not_lt] at hAbove
    have hMore := bits_le_of_value_le hAbove
    rw [hBits] at hMore
    omega

/-- The order of doubles and quotients, in units. -/
theorem worth_lt_div_iff {bits num den : Nat} (hDen : 0 < den) :
    worth false bits < (num / den : ℚ) ↔ units bits * den < num * Nat.pow 2 1074 := by
  have hPos : (0 : ℚ) < den := by exact_mod_cast hDen
  simp only [worth, Bool.false_eq_true, if_false, one_mul]
  generalize 1074 = places
  rw [div_lt_div_iff₀ (pow_pos two_pos places) hPos, Nat.pow_eq]
  exact_mod_cast Iff.rfl

theorem bits_leastPlain_le {bits : Nat} (h : 1 / 10 ^ 4 ≤ worth false bits) :
    leastPlain.bits ≤ bits := by
  have hPrevious : worth false (leastPlain.bits - 1) < ((1 : Nat) / (10000 : Nat) : ℚ) := by
    rw [worth_lt_div_iff (by decide)]
    decide +kernel
  have hLimit : ((1 : Nat) / (10000 : Nat) : ℚ) = 1 / 10 ^ 4 := by norm_num
  rw [hLimit] at hPrevious
  have hMore := worth_strictMono.lt_iff_lt.mp (hPrevious.trans_le h)
  omega

theorem lt_bits_firstExponential {bits : Nat} (h : worth false bits < 10 ^ 16) :
    bits < firstExponential.bits := by
  have hReached : ¬worth false firstExponential.bits < ((10 ^ 16 : Nat) / (1 : Nat) : ℚ) := by
    rw [worth_lt_div_iff (by decide)]
    decide +kernel
  have hLimit : ((10 ^ 16 : Nat) / (1 : Nat) : ℚ) = 10 ^ 16 := by norm_num
  rw [hLimit, not_lt] at hReached
  exact worth_strictMono.lt_iff_lt.mp (h.trans_le hReached)

-- ---------------------------------------------------------------------------
-- Numerals as tokens
-- ---------------------------------------------------------------------------

section

variable {n : Numeral} {text : List Char} (h : n.WrittenAs text)

include h

/-- Without an exponent, a numeral is what source text calls a number. -/
theorem exists_numberTail :
    ∃ c cs, n.plainText = c :: cs ∧ isDigit c ∧ NumberTail cs := by
  obtain ⟨c, digits, hWhole⟩ := List.exists_cons_of_ne_nil h.whole_ne_nil
  have hDigits := h.whole
  rw [hWhole] at hDigits
  obtain ⟨hFirst, hRest⟩ := List.forall_mem_cons.mp hDigits
  refine ⟨c, digits ++ fractionText n.fraction, ?_, hFirst, ?_⟩
  · rw [Numeral.plainText, hWhole, List.cons_append]
  · cases hFraction : n.fraction with
    | nil =>
      rw [fractionText, if_pos rfl, List.append_nil]
      exact .inl hRest
    | cons d fraction =>
      have hMore := h.fraction
      rw [hFraction] at hMore
      obtain ⟨hSecond, hBehind⟩ := List.forall_mem_cons.mp hMore
      rw [fractionText, if_neg (List.cons_ne_nil _ _)]
      exact .inr ⟨digits, d, fraction, rfl, hRest, hSecond, hBehind⟩

/-- Source text reads the same digits from it. -/
theorem plain_plainText :
    (Numeral.plain n.plainText).whole = n.whole ∧
      (Numeral.plain n.plainText).fraction = n.fraction := by
  have hBehind : fractionText n.fraction = [] ∨
      ∃ c more, fractionText n.fraction = c :: more ∧ isDigit c = false := by
    unfold fractionText
    split
    · exact .inl rfl
    · exact .inr ⟨_, _, rfl, by decide⟩
  obtain ⟨hWhole, hRest⟩ := takeWhile_dropWhile_digits h.whole hBehind
  unfold Numeral.plain Numeral.plainText
  refine ⟨hWhole, ?_⟩
  dsimp only
  rw [hRest, fractionText]
  split
  · next hNone => rw [hNone, List.drop_nil]
  · rfl

/-- The value in source text is the double that the numeral is nearest to. -/
theorem value_plainText (hExponent : n.exponent = 0) :
    (Numeral.plain n.plainText).value = ofMagnitude false n.decimal.bits := by
  obtain ⟨hWhole, hFraction⟩ := plain_plainText h
  have hWholePart : (n.exponent - n.fraction.length).toNat = 0 := by omega
  have hPlaces : (-(n.exponent - n.fraction.length)).toNat = n.fraction.length := by omega
  rw [Numeral.value_plain, Numeral.significand, hWhole, hFraction, Numeral.decimal, Decimal.bits]
  dsimp only
  have hOne : Nat.pow 10 0 = 1 := rfl
  rw [hWholePart, hPlaces, hOne, Nat.mul_one, Numeral.significand]

end

/-- The characters of a number in source text. -/
theorem mem_number {c : Char} {cs : List Char} (hFirst : isDigit c) (hTail : NumberTail cs) :
    ∀ d ∈ c :: cs, isDigit d = true ∨ d = '.' := by
  refine List.forall_mem_cons.mpr ⟨.inl hFirst, fun d hd => ?_⟩
  rcases hTail with hDigits | ⟨digits, e, fraction, rfl, hDigits, hSecond, hFraction⟩
  · exact .inl (hDigits d hd)
  · rcases List.mem_append.mp hd with hDigit | hBehind
    · exact .inl (hDigits d hDigit)
    · rcases List.mem_cons.mp hBehind with hPoint | hMore
      · exact .inr hPoint
      · rcases List.mem_cons.mp hMore with rfl | hDigit
        · exact .inl hSecond
        · exact .inl (hFraction d hDigit)

/-- A number in source text that nothing else stands in. -/
theorem lex_number {text : String} {c : Char} {cs : List Char} (hText : text.toList = c :: cs)
    (hFirst : isDigit c) (hTail : NumberTail cs) :
    lex text =
      ([{ kind := .number, lexeme := text,
          literal := .number (Numeral.plain text.toList).value, line := 1 },
        Token.endOfFile 1], []) := by
  have hLine : lineAfter 1 (c :: cs) = 1 := by
    have hNone : '\n' ∉ c :: cs := fun hFeed =>
      absurd (mem_number hFirst hTail _ hFeed) (by decide)
    rw [lineAfter, List.count_eq_zero_of_not_mem hNone]
    rfl
  have hComment : ¬['/', '/'] <+: c :: cs := by
    rintro ⟨rest, hRest⟩
    rw [(List.cons.inj hRest).1.symm] at hFirst
    exact absurd hFirst (by decide)
  have hCut := cut_of_tokenRule (tokenRule_number hFirst hTail) hComment
  have hCutting : Cutting text.toList [.token .number (c :: cs)
      (.number (Numeral.plain (c :: cs)).value)] := by
    have hWhole := Cutting.cons hCut .nil
    rw [List.append_nil] at hWhole
    rwa [hText]
  have hLexed := lexed_of_cutting hCutting rfl
  refine Prod.ext ?_ hLexed.unremarked
  rw [hLexed.lexes, hText, hLine, tokensOf_cons, Piece.text, hLine, Piece.token?, ← hText,
    String.ofList_toList]
  rfl

-- ---------------------------------------------------------------------------
-- What is printed
-- ---------------------------------------------------------------------------

/--
What is printed of a number that is zero or lies between the limits is, as source
text, one number token of that very value, and nothing is remarked on.
-/
theorem printed_numbers_lexed {x : Float} {r : ℚ} (hSign : isNegative x = false)
    (hValue : rational? x = some r) (hRange : r = 0 ∨ (1 / 10 ^ 4 ≤ r ∧ r < 10 ^ 16)) :
    lex (Value.number x).shown =
      ([{ kind := .number, lexeme := (Value.number x).shown, literal := .number x, line := 1 },
        Token.endOfFile 1], []) := by
  obtain ⟨hFinite, hWorth⟩ := eq_worth_of_rational? hValue
  rw [hSign] at hWorth
  have hHow : magnitude x = 0 ∨ numberLayout.IsPositional (shortest (magnitude x)) := by
    rcases hRange with hZero | ⟨hLeast, hFirst⟩
    · left
      have hNothing : worth false (magnitude x) = worth false 0 := by
        rw [← hWorth, hZero, worth_zero]
      exact worth_strictMono.injective hNothing
    · right
      rw [hWorth] at hLeast hFirst
      exact isPositional_shortest (bits_leastPlain_le hLeast) (lt_bits_firstExponential hFirst)
  obtain ⟨n, text, hWritten, hText, hBits, hPlain⟩ := exists_writtenAs_numberText hFinite
  obtain ⟨hExponent, rfl⟩ := hPlain hHow
  obtain ⟨c, cs, hCons, hDigit, hTail⟩ := exists_numberTail hWritten
  rw [hSign] at hText
  replace hText : (numberText x).toList = n.plainText := hText
  have hLiteral : (Numeral.plain (numberText x).toList).value = x := by
    have hSelf := ofMagnitude_self x
    rw [hSign] at hSelf
    rw [hText, value_plainText hWritten hExponent, hBits, hSelf]
  have hLexed := lex_number (hText.trans hCons) hDigit hTail
  rwa [hLiteral] at hLexed

/-- The least double of them is larger than the decimal that is printed of it. -/
theorem printed_numbers_lexed_least :
    let x := Float.ofBits 0x3F1A36E2EB1C432D
    isNegative x = false ∧ (∃ r, rational? x = some r ∧ 1 / 10 ^ 4 ≤ r ∧ r < 10 ^ 16) ∧
      lex "0.0001" =
        ([{ kind := .number, lexeme := "0.0001", literal := .number x, line := 1 },
          Token.endOfFile 1], []) := by
  intro x
  have hSign : isNegative x = false := by decide +kernel
  have hFinite : magnitude x < infinityBits := by decide +kernel
  have hValue : rational? x = some (worth false (magnitude x)) := by
    rw [rational?_eq, if_pos hFinite, hSign]
  have hLeast : ((1 : Nat) / (10000 : Nat) : ℚ) ≤ worth false (magnitude x) := by
    rw [← not_lt, worth_lt_div_iff (by decide)]
    decide +kernel
  have hFirst : worth false (magnitude x) < ((1 : Nat) / (1 : Nat) : ℚ) := by
    rw [worth_lt_div_iff (by decide)]
    decide +kernel
  have hRange : 1 / 10 ^ 4 ≤ worth false (magnitude x) ∧ worth false (magnitude x) < 10 ^ 16 := by
    constructor
    · exact le_trans (by norm_num) hLeast
    · exact lt_trans hFirst (by norm_num)
  have hShown : (Value.number x).shown = "0.0001" := by decide +kernel
  have hLexed := printed_numbers_lexed hSign hValue (.inr hRange)
  rw [hShown] at hLexed
  exact ⟨hSign, ⟨_, hValue, hRange⟩, hLexed⟩

end Scriptlet
