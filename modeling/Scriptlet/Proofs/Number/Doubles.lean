import Scriptlet.Proofs.Number.Rationals

/-!
# Scriptlet — what doubles are worth

A bit pattern is taken apart into sign, exponent and significand, and what it is
worth is the significand, scaled by a power of two. The units of the grid count
just that, and doubles without a sign are ordered as their bit patterns are.

## Results

* `rational?`               — the rational that a finite double is.
* `unpack_toModel`          — a double in parts.
* `rational?_eq`            — its rational, from the units of its bit pattern.
* `isNaN_eq`, `isInf_eq`    — the doubles that are no rationals.
* `le_of_magnitude_le`      — the order of doubles without a sign.
-/

namespace Scriptlet.Number

open Float.Model (UnpackedFloat)
open Float.Model.UnpackedFloat (Sign unpackExponent unpackMantissa unpackSign)

/-- The rational that a finite double is; an infinity or a NaN is none. -/
def rational? (x : Float) : Option ℚ :=
  match x.toModel.unpack with
  | .zero _ => some 0
  | .finite sign significand exponent _ => some ((sign.apply significand : Int) * 2 ^ exponent)
  | .infinity _ | .notANumber => none

-- ---------------------------------------------------------------------------
-- The parts of a bit pattern
-- ---------------------------------------------------------------------------

/-- The sign of a double whose sign bit is given. -/
def signOf (negative : Bool) : Sign := if negative then .negative else .positive

theorem toNat_unpackExponent (x : Float) :
    (@unpackExponent .binary64 x.toBits.toBitVec).toNat = magnitude x / 2 ^ 52 := by
  rw [magnitude, Nat.pow_eq]
  simp [unpackExponent, Nat.shiftRight_eq_div_pow]
  omega

theorem toNat_unpackMantissa (x : Float) :
    (@unpackMantissa .binary64 x.toBits.toBitVec).toNat = magnitude x % 2 ^ 52 := by
  rw [magnitude, Nat.pow_eq]
  simp [unpackMantissa]

theorem ofBitVec_unpackSign (x : Float) :
    Sign.ofBitVec (@unpackSign .binary64 x.toBits.toBitVec) = signOf (isNegative x) := by
  have hLess := x.toBits.toNat_lt
  have hBit : (@unpackSign .binary64 x.toBits.toBitVec).toNat =
      x.toBits.toNat / 2 ^ 63 := by
    simp [unpackSign, Nat.shiftRight_eq_div_pow]
    omega
  have hClear : @unpackSign .binary64 x.toBits.toBitVec = 0#1 ↔
      ¬2 ^ 63 ≤ x.toBits.toNat := by
    rw [← BitVec.toNat_inj, hBit, BitVec.toNat_zero]
    omega
  unfold Sign.ofBitVec signOf isNegative
  rw [Nat.pow_eq]
  simp only [hClear, decide_eq_true_eq, ite_not]

/-- The leading one stands in front of the mantissa of a normal double. -/
theorem toNat_append_unpackMantissa (x : Float) :
    (1#1 ++ @unpackMantissa .binary64 x.toBits.toBitVec).toNat =
      2 ^ 52 + magnitude x % 2 ^ 52 := by
  rw [BitVec.toNat_append, ← Nat.shiftLeft_add_eq_or_of_lt (BitVec.isLt _), toNat_unpackMantissa]
  rfl

theorem significand_eq_zero_iff {bits : Nat} : significand bits = 0 ↔ bits = 0 := by
  unfold significand
  rw [Nat.pow_eq]
  split <;> omega

/-- A double in parts. -/
theorem unpack_toModel (x : Float) :
    x.toModel.unpack =
      if magnitude x < infinityBits then
        if h : significand (magnitude x) = 0 then .zero (signOf (isNegative x))
        else .finite (signOf (isNegative x)) (significand (magnitude x))
          ((shift (magnitude x) : Int) - 1074) (Nat.pos_of_ne_zero h)
      else if magnitude x = infinityBits then .infinity (signOf (isNegative x))
      else .notANumber := by
  have hOnes : @unpackExponent .binary64 x.toBits.toBitVec = -1#11 ↔
      magnitude x / 2 ^ 52 = 2047 := by
    rw [← BitVec.toNat_inj, toNat_unpackExponent]
    rfl
  have hZeros : @unpackExponent .binary64 x.toBits.toBitVec = 0#11 ↔
      magnitude x / 2 ^ 52 = 0 := by
    rw [← BitVec.toNat_inj, toNat_unpackExponent]
    rfl
  have hNone : @unpackMantissa .binary64 x.toBits.toBitVec = 0#52 ↔
      magnitude x % 2 ^ 52 = 0 := by
    rw [← BitVec.toNat_inj, toNat_unpackMantissa]
    rfl
  have hBound : magnitude x < 2 ^ 63 := Nat.mod_lt _ (by decide)
  have hInfinity : infinityBits = 2047 * 2 ^ 52 := rfl
  show UnpackedFloat.unpack .binary64 x.toBits.toBitVec = _
  unfold UnpackedFloat.unpack
  dsimp only
  simp only [hOnes, hZeros, hNone, ofBitVec_unpackSign, toNat_unpackMantissa,
    toNat_unpackExponent]
  by_cases hFinite : magnitude x < infinityBits
  · rw [if_neg (by omega), if_pos hFinite]
    by_cases hSmall : magnitude x < 2 ^ 52
    · have hSignificand : significand (magnitude x) = magnitude x % 2 ^ 52 := by
        rw [significand, Nat.pow_eq, if_pos hSmall, Nat.mod_eq_of_lt hSmall]
      have hShift : shift (magnitude x) = 0 := by
        rw [shift, Nat.pow_eq]
        omega
      have hExponent : magnitude x / 2 ^ 52 = 0 := by omega
      simp only [hSignificand, hShift, hExponent]
      rfl
    · have hSignificand : significand (magnitude x) = 2 ^ 52 + magnitude x % 2 ^ 52 := by
        rw [significand, Nat.pow_eq, if_neg hSmall]
      have hShift : ((shift (magnitude x) : Nat) : Int) - 1074 =
          (magnitude x / 2 ^ 52 : Nat) - 1075 := by
        rw [shift, Nat.pow_eq]
        omega
      rw [if_neg (by omega), dif_neg (by omega)]
      simp only [hSignificand, hShift, UnpackedFloat.finite.injEq, true_and]
      exact ⟨toNat_append_unpackMantissa x, rfl⟩
  · rw [if_pos (by omega), if_neg hFinite]
    have hNoMantissa : magnitude x % 2 ^ 52 = 0 ↔ magnitude x = infinityBits := by omega
    simp only [hNoMantissa]

-- ---------------------------------------------------------------------------
-- What a double is worth
-- ---------------------------------------------------------------------------

/-- The rational of a bit pattern with a sign. -/
def worth (negative : Bool) (bits : Nat) : ℚ :=
  (if negative then -1 else 1) * (units bits / 2 ^ 1074)

theorem apply_signOf_mul (negative : Bool) (bits : Nat) :
    (((signOf negative).apply (significand bits) : Int) : ℚ) * 2 ^ ((shift bits : Int) - 1074) =
      worth negative bits := by
  have hTwo : (2 : ℚ) ≠ 0 := by norm_num
  have hPower : (2 : ℚ) ^ ((shift bits : Int) - 1074) = 2 ^ shift bits / 2 ^ 1074 := by
    rw [zpow_sub₀ hTwo, zpow_natCast]
    rfl
  rw [hPower, worth, units, Nat.pow_eq]
  generalize (2 : ℚ) ^ 1074 = unit
  cases negative with
  | false =>
    simp [signOf, Sign.apply]
    ring
  | true =>
    simp [signOf, Sign.apply]
    ring

theorem rational?_eq (x : Float) :
    rational? x =
      if magnitude x < infinityBits then some (worth (isNegative x) (magnitude x)) else none := by
  unfold rational?
  rw [unpack_toModel]
  by_cases hFinite : magnitude x < infinityBits
  · rw [if_pos hFinite, if_pos hFinite, ← apply_signOf_mul]
    by_cases hZero : significand (magnitude x) = 0
    · rw [dif_pos hZero, hZero]
      cases isNegative x <;> simp [signOf, Sign.apply]
    · rw [dif_neg hZero]
  · rw [if_neg hFinite, if_neg hFinite]
    by_cases hInfinite : magnitude x = infinityBits
    · rw [if_pos hInfinite]
    · rw [if_neg hInfinite]

theorem eq_worth_of_rational? {x : Float} {r : ℚ} (h : rational? x = some r) :
    magnitude x < infinityBits ∧ r = worth (isNegative x) (magnitude x) := by
  rw [rational?_eq] at h
  split at h
  · next hFinite => exact ⟨hFinite, (Option.some.inj h).symm⟩
  · cases h

theorem worth_zero (negative : Bool) : worth negative 0 = 0 := by
  have hUnits : units 0 = 0 := rfl
  rw [worth, hUnits, Nat.cast_zero, zero_div, mul_zero]

theorem worth_true (bits : Nat) : worth true bits = -worth false bits := by
  simp only [worth, if_true, Bool.false_eq_true, if_false, one_mul, neg_mul]

theorem worth_nonneg (bits : Nat) : 0 ≤ worth false bits := by
  simp only [worth, Bool.false_eq_true, if_false, one_mul]
  exact div_nonneg (Nat.cast_nonneg _) (pow_nonneg zero_le_two _)

theorem isNaN_eq (x : Float) : x.isNaN = decide (infinityBits < magnitude x) := by
  show x.toModel.unpack.isNaN = _
  rw [unpack_toModel]
  split_ifs <;> simp [UnpackedFloat.isNaN] <;> omega

theorem isInf_eq (x : Float) : x.isInf = decide (magnitude x = infinityBits) := by
  show x.toModel.unpack.isInf = _
  rw [unpack_toModel]
  split_ifs <;> simp [UnpackedFloat.isInf] <;> omega

/-- Bit patterns are ordered by their shifts first, and then by their significands. -/
theorem compare_shift_significand {bits more : Nat} (h : bits ≤ more) :
    ((compare ((shift bits : Int) - 1074) ((shift more : Int) - 1074)).then
      (compare (significand bits) (significand more))).isLE = true := by
  have hBits := shift_add_significand bits
  have hMore := shift_add_significand more
  have hShift : shift bits ≤ shift more := by
    unfold shift
    exact Nat.sub_le_sub_right (Nat.div_le_div_right h) 1
  rcases Nat.lt_or_eq_of_le hShift with hLess | hSame
  · rw [Int.compare_eq_lt.mpr (by omega)]
    rfl
  · rw [hSame, Int.compare_eq_eq.mpr rfl]
    rw [hSame] at hBits
    show (compare (significand bits) (significand more)).isLE = true
    rw [Nat.isLE_compare]
    omega

/-- Doubles without a sign are ordered as their bit patterns are. -/
theorem le_of_magnitude_le {x y : Float} (hx : isNegative x = false) (hy : isNegative y = false)
    (hLess : magnitude x ≤ magnitude y) (hNumber : magnitude y ≤ infinityBits) : x ≤ y := by
  show decide (x.toModel ≤ y.toModel) = true
  rw [decide_eq_true_iff]
  show (x.toModel.unpack.compare y.toModel.unpack).any (·.isLE) = true
  rw [unpack_toModel x, unpack_toModel y, hx, hy]
  by_cases hFinite : magnitude x < infinityBits
  · rw [if_pos hFinite]
    by_cases hMore : magnitude y < infinityBits
    · rw [if_pos hMore]
      by_cases hZero : significand (magnitude x) = 0
      · rw [dif_pos hZero]
        split <;> rfl
      · have hSome : significand (magnitude y) ≠ 0 := by
          rw [significand_eq_zero_iff] at hZero
          rw [ne_eq, significand_eq_zero_iff]
          omega
        rw [dif_neg hZero, dif_neg hSome]
        exact compare_shift_significand hLess
    · rw [if_neg hMore, if_pos (by omega)]
      split <;> rfl
  · have hSame : magnitude x = infinityBits := by omega
    have hInfinite : magnitude y = infinityBits := by omega
    rw [hSame, hInfinite]
    simp only [lt_self_iff_false, if_false, if_true]
    rfl

end Scriptlet.Number
