import Mathlib
import Scriptlet.Number.Shortest

/-!
# Scriptlet — doubles and the rationals they stand for

Rounding looks at a quotient only, not at how it is written: numerator and
denominator may be multiplied by the same number. So the double nearest to a
decimal depends on the value of the decimal alone. A double that is finite is
nearest to its own value, and therefore the decimal that it is shown by is one
whose nearest double it is. Sign and magnitude together are the whole double.

## Results

* `nearest_eq_of_mul_eq`    — equal quotients are rounded to the same double.
* `nearest_units`           — a finite double is nearest to its own value.
* `Decimal.value`, `Decimal.bits_eq_of_value_eq` — decimals of the same value.
* `bits_shortest`           — the decimal with the fewest digits reads back.
* `magnitude_ofMagnitude`, `ofMagnitude_self` — sign and magnitude.
-/

namespace Scriptlet.Number

-- ---------------------------------------------------------------------------
-- Quotients
-- ---------------------------------------------------------------------------

theorem roundDiv_mul_left (num den : Nat) {k : Nat} (hk : 0 < k) :
    roundDiv (k * num) (k * den) = roundDiv num den := by
  have hLess (a b : Nat) : 2 * (k * a) < k * b ↔ 2 * a < b := by
    rw [Nat.mul_left_comm, Nat.mul_lt_mul_left hk]
  have hSame (a b : Nat) : 2 * (k * a) = k * b ↔ 2 * a = b := by
    rw [Nat.mul_left_comm, Nat.mul_right_inj (Nat.ne_of_gt hk)]
  simp only [roundDiv, Nat.mul_div_mul_left _ _ hk, Nat.mul_mod_mul_left, hLess, hSame]

theorem nearest_mul_left (num den : Nat) {k : Nat} (hk : 0 < k) :
    nearest (k * num) (k * den) = nearest num den := by
  simp only [nearest, Nat.mul_assoc, Nat.mul_div_mul_left _ _ hk, roundDiv_mul_left _ _ hk]

/-- Equal quotients are rounded to the same double. -/
theorem nearest_eq_of_mul_eq {num den num' den' : Nat} (hDen : 0 < den) (hDen' : 0 < den')
    (h : num * den' = num' * den) : nearest num den = nearest num' den' := by
  calc nearest num den = nearest (den' * num) (den' * den) := (nearest_mul_left _ _ hDen').symm
    _ = nearest (den * num') (den * den') := by
      rw [Nat.mul_comm den' num, h, Nat.mul_comm num' den, Nat.mul_comm den' den]
    _ = nearest num' den' := nearest_mul_left _ _ hDen

-- ---------------------------------------------------------------------------
-- Doubles as whole numbers of units
-- ---------------------------------------------------------------------------

/-- The significand of a subnormal double is the bit pattern, and that of others has 53 places. -/
theorem log2_units_sub (bits : Nat) : (units bits).log2 - 52 = shift bits := by
  have hTwo : Nat.pow 2 52 = 2 ^ 52 := rfl
  unfold units significand shift
  rw [hTwo]
  split
  · next hSmall =>
    have hShift : bits / 2 ^ 52 - 1 = 0 := by omega
    rw [hShift, Nat.pow_eq, Nat.pow_zero, Nat.mul_one]
    have hLog : bits.log2 < 53 := by
      rcases Nat.eq_zero_or_pos bits with rfl | hPos
      · decide
      · exact (Nat.log2_lt (Nat.ne_of_gt hPos)).mpr (by omega)
    omega
  · next hLarge =>
    rw [Nat.pow_eq]
    generalize bits / 2 ^ 52 - 1 = places
    have hPos : 0 < 2 ^ places := Nat.two_pow_pos places
    have hPlaces : ((2 ^ 52 + bits % 2 ^ 52) * 2 ^ places).log2 = 52 + places := by
      rw [Nat.log2_eq_iff (Nat.ne_of_gt (Nat.mul_pos (by omega) hPos)), Nat.add_right_comm,
        Nat.pow_add, Nat.pow_add]
      exact ⟨Nat.mul_le_mul_right _ (by omega), Nat.mul_lt_mul_of_pos_right (by omega) hPos⟩
    omega

/-- The bit pattern of a double, from its significand and its shift. -/
theorem shift_add_significand (bits : Nat) :
    shift bits * Nat.pow 2 52 + significand bits = bits := by
  have hTwo : Nat.pow 2 52 = 2 ^ 52 := rfl
  unfold significand shift
  rw [hTwo]
  split
  · omega
  · omega

theorem pow_pos_of_pos {b : Nat} (h : 0 < b) (n : Nat) : 0 < Nat.pow b n := Nat.pow_pos h

/-- A finite double is nearest to its own value. -/
theorem nearest_units {bits : Nat} (h : bits < infinityBits) :
    nearest (units bits) (Nat.pow 2 1074) = bits := by
  have hUnit : ∀ places, 0 < Nat.pow 2 places := pow_pos_of_pos (by decide)
  specialize hUnit 1074
  unfold nearest
  -- the unit is a number that nothing has to be known about but that it is positive
  generalize Nat.pow 2 1074 = unit at hUnit ⊢
  have hStep : 0 < unit * Nat.pow 2 (shift bits) := Nat.mul_pos hUnit (pow_pos_of_pos (by decide) _)
  have hRounded : roundDiv (units bits * unit) (unit * Nat.pow 2 (shift bits)) =
      significand bits := by
    rw [units, Nat.mul_assoc, Nat.mul_comm _ unit]
    exact roundDiv_mul_self _ hStep
  dsimp only
  rw [Nat.mul_div_cancel _ hUnit, log2_units_sub, hRounded, shift_add_significand]
  exact Nat.min_eq_left (Nat.le_of_lt h)

-- ---------------------------------------------------------------------------
-- Decimals
-- ---------------------------------------------------------------------------

/-- The rational that a decimal stands for. -/
def Decimal.value (d : Decimal) : ℚ := d.digits * 10 ^ d.exponent

theorem Decimal.value_eq_div (d : Decimal) :
    d.value = (d.digits * Nat.pow 10 d.exponent.toNat : Nat) /
      (Nat.pow 10 (-d.exponent).toNat : Nat) := by
  have hTen : (10 : ℚ) ≠ 0 := by norm_num
  have hExponent : d.exponent = (d.exponent.toNat : Int) - ((-d.exponent).toNat : Int) := by omega
  have hPower : (10 : ℚ) ^ d.exponent = 10 ^ d.exponent.toNat / 10 ^ (-d.exponent).toNat := by
    conv_lhs => rw [hExponent]
    rw [zpow_sub₀ hTen, zpow_natCast, zpow_natCast]
  rw [value, hPower, Nat.pow_eq, Nat.pow_eq]
  push_cast
  ring

/-- The nearest double depends on the value of a decimal alone. -/
theorem Decimal.bits_eq_of_value_eq {d e : Decimal} (h : d.value = e.value) : d.bits = e.bits := by
  have hPos : ∀ n, 0 < Nat.pow 10 n := pow_pos_of_pos (by decide)
  have hNe (n : Nat) : ((Nat.pow 10 n : Nat) : ℚ) ≠ 0 := by exact_mod_cast Nat.ne_of_gt (hPos n)
  rw [d.value_eq_div, e.value_eq_div, div_eq_div_iff (hNe _) (hNe _)] at h
  exact nearest_eq_of_mul_eq (hPos _) (hPos _) (by exact_mod_cast h)

theorem nearest_mul_pow_five (num places : Nat) :
    nearest (num * Nat.pow 5 places) (Nat.pow 10 places) = nearest num (Nat.pow 2 places) := by
  have hTen : Nat.pow 10 places = Nat.pow 5 places * Nat.pow 2 places := Nat.mul_pow 5 2 places
  rw [hTen, Nat.mul_comm num, nearest_mul_left _ _ (pow_pos_of_pos (by decide) places)]

/-- All the decimal digits of a finite double read back. -/
theorem bits_decimalUnits {bits : Nat} (h : bits < infinityBits) :
    ({ digits := decimalUnits bits, exponent := -1074 } : Decimal).bits = bits := by
  have hWhole : Nat.pow 10 (-1074 : Int).toNat = 1 := rfl
  have hPlaces : (- -1074 : Int).toNat = 1074 := rfl
  have hNearest := nearest_units h
  unfold Decimal.bits
  rw [hWhole, hPlaces, Nat.mul_one, decimalUnits]
  generalize 1074 = places at hNearest ⊢
  rw [nearest_mul_pow_five]
  exact hNearest

/-- The decimal with the fewest digits reads back. -/
theorem bits_shortest {bits : Nat} (h : bits < infinityBits) : (shortest bits).bits = bits := by
  unfold shortest
  dsimp only
  cases hFound : (List.range 17).findSome? fun k =>
      onGrid bits (decimalUnits bits) (digitCount (decimalUnits bits) - (k + 1)) with
  | none => exact bits_decimalUnits h
  | some d =>
    obtain ⟨k, -, hGrid⟩ := List.exists_of_findSome?_eq_some hFound
    exact bits_onGrid hGrid

theorem nearest_zero {den : Nat} (h : 0 < den) : nearest 0 den = 0 := by
  unfold nearest
  generalize Nat.pow 2 1074 = unit
  simp [roundDiv, h]

/-- Only zero is shown by a decimal without a digit other than zero. -/
theorem digits_shortest_pos {bits : Nat} (hPos : 0 < bits) (h : bits < infinityBits) :
    0 < (shortest bits).digits := by
  have hBits := bits_shortest h
  rcases Nat.eq_zero_or_pos (shortest bits).digits with hZero | hDigits
  · have hNothing : (shortest bits).bits = 0 := by
      rw [Decimal.bits, hZero, Nat.zero_mul]
      exact nearest_zero (pow_pos_of_pos (by decide) _)
    omega
  · exact hDigits

-- ---------------------------------------------------------------------------
-- Sign and magnitude
-- ---------------------------------------------------------------------------

/-- A double keeps a bit pattern unless it is that of a NaN. -/
theorem toBits_ofBits {u : UInt64} (h : u.toNat % 2 ^ 63 ≤ infinityBits) :
    (Float.ofBits u).toBits = u := by
  have hValid : Float.Model.Format.binary64.Valid u.toBitVec := by
    constructor
    intro hExponent hMantissa
    have hOnes : u.toNat / 2 ^ 52 % 2 ^ 11 = 2047 := by
      have hNat := congrArg BitVec.toNat hExponent
      simpa [Float.Model.UnpackedFloat.unpackExponent, Nat.shiftRight_eq_div_pow] using hNat
    have hSome : u.toNat % 2 ^ 52 ≠ 0 := by
      intro hZero
      apply hMantissa
      apply BitVec.eq_of_toNat_eq
      simpa [Float.Model.UnpackedFloat.unpackMantissa] using hZero
    have hInfinity : infinityBits = 2047 * 2 ^ 52 := rfl
    omega
  exact congrArg Float.toBits (Float.ofBits_toBits (Float.ofModel ⟨u, hValid⟩))

theorem toNat_toBits_ofMagnitude (negative : Bool) {bits : Nat} (h : bits ≤ infinityBits) :
    (ofMagnitude negative bits).toBits.toNat = bits + if negative then 2 ^ 63 else 0 := by
  have hInfinity : infinityBits = 2047 * 2 ^ 52 := rfl
  have hNat : (UInt64.ofNat (bits + if negative then Nat.pow 2 63 else 0)).toNat =
      bits + if negative then 2 ^ 63 else 0 := by
    rw [UInt64.toNat_ofNat', Nat.pow_eq]
    exact Nat.mod_eq_of_lt (by split <;> omega)
  rw [ofMagnitude, toBits_ofBits]
  · exact hNat
  · rw [hNat]
    split <;> omega

theorem magnitude_ofMagnitude (negative : Bool) {bits : Nat} (h : bits ≤ infinityBits) :
    magnitude (ofMagnitude negative bits) = bits := by
  have hInfinity : infinityBits = 2047 * 2 ^ 52 := rfl
  rw [magnitude, toNat_toBits_ofMagnitude negative h, Nat.pow_eq]
  split <;> omega

/-- A double is its sign and its magnitude. -/
theorem ofMagnitude_self (x : Float) : ofMagnitude (isNegative x) (magnitude x) = x := by
  have hNat : magnitude x + (if isNegative x then Nat.pow 2 63 else 0) = x.toBits.toNat := by
    have hLess := x.toBits.toNat_lt
    rw [magnitude, isNegative, Nat.pow_eq]
    simp only [decide_eq_true_eq]
    split <;> omega
  rw [ofMagnitude, hNat, UInt64.ofNat_toNat, Float.ofBits_toBits]

end Scriptlet.Number
