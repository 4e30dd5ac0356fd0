import Scriptlet.Proofs.Number.Doubles

/-!
# Scriptlet — correct rounding

The grid of doubles is counted in units, and a quotient lies between two points
of it that follow each other. The nearer one is chosen, and of two that are
equally near the even one; since a double with a sign is never nearer than zero
is, nothing on the whole grid is. Past the largest double the power of two that
would follow stands for infinity, and half the way to it decides.

Which double a rational is rounded to is said without a word about how it is
found, and that is enough to tell that there is one such double only, and that
larger rationals are rounded to larger doubles.

## Results

* `units_of`, `units_strictMono` — the grid.
* `closer`, `exists_between` — a quotient and its neighbours on the grid.
* `closer_nearest`, `lt_closer_iff` — the neighbour that is chosen.
* `RoundedTo`               — a rational correctly rounded.
* `roundedTo_nearest`       — the nearest double is the quotient correctly rounded.
* `RoundedTo.le`, `RoundedTo.unique` — rounding keeps the order, and leaves no choice.
-/

namespace Scriptlet.Number

-- ---------------------------------------------------------------------------
-- The grid
-- ---------------------------------------------------------------------------

/-- A shift and a significand as a bit pattern; a significand may be one too large for its shift. -/
theorem units_of {place significand : Nat} (hLess : significand ≤ 2 ^ 53)
    (hPlace : place = 0 ∨ 2 ^ 52 ≤ significand) :
    units (place * 2 ^ 52 + significand) = significand * 2 ^ place := by
  unfold units Number.significand shift
  simp only [Nat.pow_eq]
  by_cases hSmall : place * 2 ^ 52 + significand < 2 ^ 52
  · have hZero : place = 0 := by omega
    subst hZero
    rw [if_pos hSmall, show (0 * 2 ^ 52 + significand) / 2 ^ 52 - 1 = 0 by omega]
    omega
  · rw [if_neg hSmall]
    rcases Nat.lt_or_eq_of_le hLess with hBelow | hCarry
    · rw [show (place * 2 ^ 52 + significand) / 2 ^ 52 - 1 = place by omega,
        show 2 ^ 52 + (place * 2 ^ 52 + significand) % 2 ^ 52 = significand by omega]
    · rw [hCarry, show (place * 2 ^ 52 + 2 ^ 53) / 2 ^ 52 - 1 = place + 1 by omega,
        show 2 ^ 52 + (place * 2 ^ 52 + 2 ^ 53) % 2 ^ 52 = 2 ^ 52 by omega]
      ring

theorem significand_lt (bits : Nat) : significand bits < 2 ^ 53 := by
  unfold significand
  rw [Nat.pow_eq]
  split <;> omega

theorem shift_eq_zero_or (bits : Nat) : shift bits = 0 ∨ 2 ^ 52 ≤ significand bits := by
  unfold shift significand
  rw [Nat.pow_eq]
  split <;> omega

theorem units_succ (bits : Nat) : units (bits + 1) = units bits + 2 ^ shift bits := by
  have hBits := shift_add_significand bits
  rw [Nat.pow_eq] at hBits
  have hNext : bits + 1 = shift bits * 2 ^ 52 + (significand bits + 1) := by omega
  have hPlace := shift_eq_zero_or bits
  rw [hNext, units_of (significand_lt bits) (by omega), units, Nat.pow_eq, Nat.succ_mul]

theorem units_strictMono : StrictMono units := by
  refine strictMono_nat_of_lt_succ fun bits => ?_
  have hStep : 0 < 2 ^ shift bits := Nat.two_pow_pos _
  rw [units_succ]
  omega

-- ---------------------------------------------------------------------------
-- Rounding to the grid
-- ---------------------------------------------------------------------------

/-- The nearer of two values that follow each other, the first of them if both are equally near
and it is even. -/
def closer (low high q : ℚ) (n : Nat) : Nat :=
  if 2 * q < low + high ∨ (2 * q = low + high ∧ n % 2 = 0) then n else n + 1

/-- A quotient is rounded to the nearer of its neighbours. -/
theorem roundDiv_eq_closer (num : Nat) {den : Nat} (h : 0 < den) :
    roundDiv num den = closer (num / den : Nat) ((num / den : Nat) + 1) (num / den) (num / den) := by
  have hDen : (0 : ℚ) < den := by exact_mod_cast h
  have hValue : 2 * (num / den : ℚ) =
      (num / den : Nat) + (num / den : Nat) + (2 * (num % den) : Nat) / den := by
    have hDivision : (den * (num / den : Nat) + (num % den : Nat) : ℚ) = num := by
      exact_mod_cast Nat.div_add_mod num den
    rw [← hDivision]
    push_cast
    field_simp
    ring
  have hBelow : ((2 * (num % den) : Nat) / den : ℚ) < 1 ↔ 2 * (num % den) < den := by
    rw [div_lt_one hDen, Nat.cast_lt]
  have hHalf : ((2 * (num % den) : Nat) / den : ℚ) = 1 ↔ 2 * (num % den) = den := by
    rw [div_eq_one_iff_eq hDen.ne', Nat.cast_inj]
  unfold roundDiv closer
  simp only [hValue, ← add_assoc, add_lt_add_iff_left, add_right_inj, hBelow, hHalf]

/-- Another unit changes nothing, nor does an even number in front. -/
theorem closer_scaled {step : ℚ} (hStep : 0 < step) (low high q : ℚ) {base : Nat}
    (hBase : base % 2 = 0) (n : Nat) :
    closer (low * step) (high * step) (q * step) (base + n) = base + closer low high q n := by
  have hEven : (base + n) % 2 = 0 ↔ n % 2 = 0 := by omega
  unfold closer
  simp only [← mul_assoc, ← add_mul, mul_lt_mul_iff_left₀ hStep, mul_left_inj' hStep.ne', hEven]
  split <;> rfl

/-- The last significant place of a whole number leaves 53 places, or all there are. -/
theorem div_two_pow_bounds (n : Nat) :
    n / 2 ^ (n.log2 - 52) < 2 ^ 53 ∧ (n.log2 - 52 = 0 ∨ 2 ^ 52 ≤ n / 2 ^ (n.log2 - 52)) := by
  have hStep : 0 < 2 ^ (n.log2 - 52) := Nat.two_pow_pos _
  constructor
  · rw [Nat.div_lt_iff_lt_mul hStep, ← Nat.pow_add]
    exact lt_of_lt_of_le Nat.lt_log2_self (Nat.pow_le_pow_right (by decide) (by omega))
  · rcases Nat.eq_zero_or_pos (n.log2 - 52) with hZero | hPos
    · exact .inl hZero
    · have hLog : 52 + (n.log2 - 52) = n.log2 := by omega
      have hSome : n ≠ 0 := by
        rintro rfl
        simp at hPos
      right
      rw [Nat.le_div_iff_mul_le hStep, ← Nat.pow_add, hLog]
      exact Nat.log2_self_le hSome

theorem div_mul_two_pow (num den places : Nat) :
    (num / den : ℚ) * 2 ^ places = (num * Nat.pow 2 places : Nat) / den := by
  rw [Nat.pow_eq, Nat.cast_mul, Nat.cast_pow, Nat.cast_ofNat, div_mul_eq_mul_div]

/-- A rational in units. -/
def scaled (v : ℚ) : ℚ := v * 2 ^ 1074

/-- The neighbours of a quotient on the grid, and which of them is nearest. -/
theorem exists_between (num : Nat) {den : Nat} (hDen : 0 < den) :
    ∃ bits, (units bits : ℚ) ≤ scaled (num / den) ∧ scaled (num / den) < units (bits + 1) ∧
      nearest num den =
        min (closer (units bits) (units (bits + 1)) (scaled (num / den)) bits) infinityBits := by
  unfold scaled nearest
  generalize 1074 = places
  rw [div_mul_two_pow]
  generalize num * Nat.pow 2 places = n
  dsimp only
  obtain ⟨hLess, hNormal⟩ := div_two_pow_bounds (n / den)
  generalize (n / den).log2 - 52 = place at *
  rw [Nat.pow_eq, Nat.pow_eq]
  have hUnit : 0 < den * 2 ^ place := Nat.mul_pos hDen (Nat.two_pow_pos _)
  rw [Nat.div_div_eq_div_mul] at hLess hNormal
  rw [roundDiv_eq_closer n hUnit]
  have hUnits := units_of (Nat.le_of_lt hLess) hNormal
  have hNext : units (place * 2 ^ 52 + n / (den * 2 ^ place) + 1) =
      (n / (den * 2 ^ place) + 1) * 2 ^ place := by
    rw [Nat.add_assoc]
    exact units_of hLess (hNormal.imp_right Nat.le_succ_of_le)
  have hLow : ((n / (den * 2 ^ place) : Nat) : ℚ) ≤ n / (den * 2 ^ place : Nat) := Nat.cast_div_le
  have hHigh : (n / (den * 2 ^ place : Nat) : ℚ) < (n / (den * 2 ^ place) + 1 : Nat) := by
    rw [div_lt_iff₀ (by exact_mod_cast hUnit)]
    exact_mod_cast Nat.lt_mul_of_div_lt (Nat.lt_succ_self _) hUnit
  have hValue : (n / den : ℚ) = n / (den * 2 ^ place : Nat) * 2 ^ place := by
    push_cast
    field_simp
  rw [hValue]
  generalize (n / (den * 2 ^ place : Nat) : ℚ) = q at *
  generalize n / (den * 2 ^ place) = m at *
  have hStep : (0 : ℚ) < 2 ^ place := by positivity
  refine ⟨place * 2 ^ 52 + m, ?_, ?_, ?_⟩
  · rw [hUnits, Nat.cast_mul, Nat.cast_pow, Nat.cast_ofNat]
    exact mul_le_mul_of_nonneg_right hLow hStep.le
  · rw [hNext, Nat.cast_mul, Nat.cast_pow, Nat.cast_ofNat]
    exact mul_lt_mul_of_pos_right hHigh hStep
  · rw [hUnits, hNext, Nat.cast_mul, Nat.cast_mul, Nat.cast_pow, Nat.cast_ofNat,
      closer_scaled hStep _ _ _ (by omega), Nat.cast_add, Nat.cast_one]

section

variable {bits : Nat} {q : ℚ}

theorem units_le {bits other : Nat} (h : bits ≤ other) : (units bits : ℚ) ≤ units other := by
  exact_mod_cast units_strictMono.monotone h

theorem units_lt {bits other : Nat} (h : bits < other) : (units bits : ℚ) < units other := by
  exact_mod_cast units_strictMono h

/-- No value of the grid is nearer than the one chosen, and it is even if another is as near. -/
theorem closer_nearest (hLow : (units bits : ℚ) ≤ q) (hHigh : q < units (bits + 1)) {chosen : Nat}
    (hChosen : chosen = closer (units bits) (units (bits + 1)) q bits) (other : Nat) :
    |q - units chosen| ≤ |q - units other| ∧
      (other ≠ chosen → |q - units other| = |q - units chosen| → chosen % 2 = 0) := by
  have hBelow : ∀ k ≤ bits, |q - units k| = q - units k := fun k h =>
    abs_of_nonneg (sub_nonneg.mpr ((units_le h).trans hLow))
  have hAbove : ∀ k, bits + 1 ≤ k → |q - units k| = units k - q := fun k h => by
    rw [abs_sub_comm]
    exact abs_of_nonneg (sub_nonneg.mpr (hHigh.le.trans (units_le h)))
  unfold closer at hChosen
  split at hChosen
  · next hNear =>
    have hHalf : 2 * q ≤ units bits + units (bits + 1) := hNear.elim le_of_lt fun h => h.1.le
    rw [hChosen, hBelow bits le_rfl]
    rcases Nat.lt_trichotomy other bits with hLess | rfl | hMore
    · have hStrict := units_lt hLess
      rw [hBelow other hLess.le]
      exact ⟨by linarith, fun _ _ => by linarith⟩
    · exact ⟨(hBelow other le_rfl).ge, fun hOther => absurd rfl hOther⟩
    · have hNext := units_le hMore
      rw [hAbove other hMore]
      exact ⟨by linarith, fun _ hTie => (hNear.resolve_left (by linarith)).2⟩
  · next hFar =>
    obtain ⟨hNotLess, hNotTie⟩ := not_or.mp hFar
    rw [hChosen, hAbove (bits + 1) le_rfl]
    rcases Nat.lt_trichotomy other (bits + 1) with hLess | rfl | hMore
    · have hPrevious := units_le (Nat.le_of_lt_succ hLess)
      rw [hBelow other (Nat.le_of_lt_succ hLess)]
      refine ⟨by linarith, fun _ hTie => ?_⟩
      have hOdd : ¬bits % 2 = 0 := fun hEven => hNotTie ⟨by linarith, hEven⟩
      omega
    · exact ⟨(hAbove _ le_rfl).ge, fun hOther => absurd rfl hOther⟩
    · have hStrict := units_lt hMore
      rw [hAbove other hMore.le]
      exact ⟨by linarith, fun _ _ => by linarith⟩

/-- What lies behind an odd pattern is chosen exactly from halfway to the next one on. -/
theorem lt_closer_iff (hLow : (units bits : ℚ) ≤ q) (hHigh : q < units (bits + 1)) {edge : Nat}
    (hOdd : edge % 2 = 1) :
    edge < closer (units bits) (units (bits + 1)) q bits ↔
      (units edge + units (edge + 1) : ℚ) ≤ 2 * q := by
  have hEdge := units_le (Nat.le_succ edge)
  unfold closer
  rcases Nat.lt_trichotomy bits edge with hLess | rfl | hMore
  · have hNext := units_le (Nat.succ_le_of_lt hLess)
    refine iff_of_false ?_ (by linarith)
    split <;> omega
  · have hNotEven : ¬bits % 2 = 0 := by omega
    simp only [hNotEven, and_false, or_false]
    split
    · next hNear => exact iff_of_false (Nat.lt_irrefl bits) (not_le.mpr hNear)
    · next hFar => exact iff_of_true (Nat.lt_succ_self bits) (not_lt.mp hFar)
  · have hNext := units_le (Nat.succ_le_of_lt hMore)
    refine iff_of_true ?_ (by linarith)
    split <;> omega

end

-- ---------------------------------------------------------------------------
-- Correct rounding
-- ---------------------------------------------------------------------------

/-- What a rational has to reach to round past every finite double: halfway between the largest
of them and the power of two that follows. -/
def overflowPoint : ℚ := 2 ^ 1024 - 2 ^ 970

/-- The significand of a double is even; that of zero is. -/
def HasEvenSignificand (x : Float) : Prop :=
  match x.toModel.unpack with
  | .finite _ significand _ _ => significand % 2 = 0
  | .zero _ | .infinity _ | .notANumber => True

/--
A double without a sign is a rational correctly rounded: infinite exactly from
the overflow point on, otherwise as near as any finite double is, and with an
even significand if another one is equally near.
-/
structure RoundedTo (v : ℚ) (x : Float) : Prop where
  isNegative_eq : isNegative x = false
  isNaN_eq : x.isNaN = false
  isInf_iff : x.isInf = true ↔ overflowPoint ≤ v
  nearest : ∀ r, rational? x = some r → ∀ y s, rational? y = some s → |v - r| ≤ |v - s|
  even : ∀ r, rational? x = some r → ∀ y s, rational? y = some s → s ≠ r → |v - s| = |v - r| →
    HasEvenSignificand x

theorem significand_mod_two (bits : Nat) : significand bits % 2 = bits % 2 := by
  have hBits := shift_add_significand bits
  rw [Nat.pow_eq] at hBits
  omega

theorem hasEvenSignificand_iff {x : Float} (h : magnitude x < infinityBits) :
    HasEvenSignificand x ↔ magnitude x % 2 = 0 := by
  rw [HasEvenSignificand, unpack_toModel, if_pos h, ← significand_mod_two]
  by_cases hZero : significand (magnitude x) = 0
  · rw [dif_pos hZero, hZero]
    simp
  · rw [dif_neg hZero]

/-- The last significand with a shift and what follows it. -/
theorem units_add_units_last (place : Nat) :
    (units (place * 2 ^ 52 + (2 ^ 53 - 1)) + units (place * 2 ^ 52 + 2 ^ 53) : ℚ) =
      (2 ^ 54 - 1) * 2 ^ place := by
  rw [units_of (by decide) (.inr (by decide)), units_of le_rfl (.inr (by decide)), Nat.cast_mul,
    Nat.cast_mul, ← add_mul, Nat.cast_pow, Nat.cast_ofNat]
  norm_num

theorem scaled_overflowPoint :
    (units (infinityBits - 1) + units (infinityBits - 1 + 1) : ℚ) = 2 * scaled overflowPoint := by
  have hLast : infinityBits - 1 = 2045 * 2 ^ 52 + (2 ^ 53 - 1) := rfl
  have hEdge : overflowPoint = (2 ^ 54 - 1) * 2 ^ 970 := by
    rw [overflowPoint, sub_mul, one_mul, ← pow_add]
  have hPower : (2 : ℚ) * (2 ^ 970 * 2 ^ 1074) = 2 ^ 2045 := by
    rw [← pow_add, ← pow_succ']
  rw [hLast, Nat.add_assoc, Nat.sub_add_cancel (by decide), units_add_units_last, scaled, hEdge,
    mul_assoc, mul_left_comm, hPower]

theorem overflowPoint_le_iff (v : ℚ) :
    (units (infinityBits - 1) + units (infinityBits - 1 + 1) : ℚ) ≤ 2 * scaled v ↔
      overflowPoint ≤ v := by
  have hUnit : (0 : ℚ) < 2 ^ 1074 := pow_pos two_pos _
  rw [scaled_overflowPoint, mul_le_mul_iff_right₀ two_pos, scaled, scaled,
    mul_le_mul_iff_left₀ hUnit]

theorem sub_worth (v : ℚ) (bits : Nat) :
    v - worth false bits = (scaled v - units bits) / 2 ^ 1074 := by
  have hUnit : (2 : ℚ) ^ 1074 ≠ 0 := pow_ne_zero _ two_ne_zero
  rw [worth, scaled, sub_div, mul_div_cancel_right₀ _ hUnit]
  simp only [Bool.false_eq_true, if_false, one_mul]

/-- What is chosen is nearest among the doubles without a sign. -/
theorem worth_nearest {v : ℚ} {bits : Nat} (hLow : (units bits : ℚ) ≤ scaled v)
    (hHigh : scaled v < units (bits + 1)) {chosen : Nat}
    (hChosen : chosen = closer (units bits) (units (bits + 1)) (scaled v) bits) (other : Nat) :
    |v - worth false chosen| ≤ |v - worth false other| ∧
      (other ≠ chosen → |v - worth false other| = |v - worth false chosen| →
        chosen % 2 = 0) := by
  have hUnit : (0 : ℚ) < |2 ^ 1074| := abs_pos.mpr (pow_ne_zero _ two_ne_zero)
  rw [sub_worth, sub_worth, abs_div, abs_div, div_le_div_iff_of_pos_right hUnit,
    div_left_inj' hUnit.ne']
  exact closer_nearest hLow hHigh hChosen other

theorem isNegative_ofMagnitude (negative : Bool) {bits : Nat} (h : bits ≤ infinityBits) :
    isNegative (ofMagnitude negative bits) = negative := by
  have hInfinity : infinityBits = 2047 * 2 ^ 52 := rfl
  rw [isNegative, toNat_toBits_ofMagnitude negative h, Nat.pow_eq]
  cases negative with
  | false =>
    simp
    omega
  | true => simp

/-- Nor is a double with a sign nearer, as zero is not. -/
theorem signed_worth_nearest {v : ℚ} (hv : 0 ≤ v) {bits : Nat} (hLow : (units bits : ℚ) ≤ scaled v)
    (hHigh : scaled v < units (bits + 1)) {chosen : Nat}
    (hChosen : chosen = closer (units bits) (units (bits + 1)) (scaled v) bits) (negative : Bool)
    (other : Nat) :
    |v - worth false chosen| ≤ |v - worth negative other| ∧
      (worth negative other ≠ worth false chosen →
        |v - worth negative other| = |v - worth false chosen| → chosen % 2 = 0) := by
  have hGrid := worth_nearest hLow hHigh hChosen
  cases negative with
  | false =>
    refine ⟨(hGrid other).1, fun hOther hTie => (hGrid other).2 ?_ hTie⟩
    rintro rfl
    exact hOther rfl
  | true =>
    have hOther := worth_nonneg other
    obtain ⟨hZero, hZeroTie⟩ := hGrid 0
    rw [worth_zero, sub_zero, abs_of_nonneg hv] at hZero hZeroTie
    rw [worth_true, sub_neg_eq_add, abs_of_nonneg (add_nonneg hv hOther)]
    refine ⟨by linarith, fun hApart hTie => hZeroTie ?_ (by linarith)⟩
    rintro rfl
    rw [worth_zero, ne_eq, neg_eq_zero] at hApart
    rw [worth_zero, sub_zero, abs_of_nonneg hv] at hTie
    exact hApart (by linarith)

/-- The double nearest to a quotient is the quotient correctly rounded. -/
theorem roundedTo_nearest (num : Nat) {den : Nat} (hDen : 0 < den) :
    RoundedTo (num / den) (ofMagnitude false (nearest num den)) := by
  obtain ⟨bits, hLow, hHigh, hNearest⟩ := exists_between num hDen
  have hValue : (0 : ℚ) ≤ num / den := by positivity
  have hBound : nearest num den ≤ infinityBits := nearest_le_infinityBits num den
  generalize (num / den : ℚ) = v at *
  generalize nearest num den = rounded at *
  generalize hChosen : closer (units bits) (units (bits + 1)) (scaled v) bits = chosen at *
  have hGrid := signed_worth_nearest hValue hLow hHigh hChosen.symm
  have hMagnitude := magnitude_ofMagnitude false hBound
  have hSign := isNegative_ofMagnitude false hBound
  have hOver := lt_closer_iff hLow hHigh (show (infinityBits - 1) % 2 = 1 from rfl)
  rw [hChosen, overflowPoint_le_iff] at hOver
  -- a finite double is the one chosen
  have hFinite : ∀ r, rational? (ofMagnitude false rounded) = some r →
      magnitude (ofMagnitude false rounded) < infinityBits ∧ rounded = chosen ∧
        r = worth false chosen := by
    intro r hr
    obtain ⟨hLess, hWorth⟩ := eq_worth_of_rational? hr
    rw [hSign, hMagnitude] at hWorth
    have hSame : rounded = chosen := by omega
    exact ⟨hLess, hSame, hSame ▸ hWorth⟩
  refine ⟨hSign, ?_, ?_, ?_, ?_⟩
  · rw [isNaN_eq, hMagnitude, decide_eq_false_iff_not]
    omega
  · have hInfinity : infinityBits = 2047 * 2 ^ 52 := rfl
    rw [isInf_eq, hMagnitude, decide_eq_true_iff, ← hOver]
    omega
  · intro r hr y s hs
    obtain ⟨-, -, rfl⟩ := hFinite r hr
    obtain ⟨-, rfl⟩ := eq_worth_of_rational? hs
    exact (hGrid _ _).1
  · intro r hr y s hs hApart hTie
    obtain ⟨hLess, hSame, rfl⟩ := hFinite r hr
    obtain ⟨-, rfl⟩ := eq_worth_of_rational? hs
    rw [hasEvenSignificand_iff hLess, hMagnitude, hSame]
    exact (hGrid _ _).2 hApart hTie

-- ---------------------------------------------------------------------------
-- Order
-- ---------------------------------------------------------------------------

theorem worth_strictMono : StrictMono (worth false) := by
  intro bits other h
  have hUnit : (0 : ℚ) < 2 ^ 1074 := pow_pos two_pos _
  simp only [worth, Bool.false_eq_true, if_false, one_mul]
  exact div_lt_div_of_pos_right (units_lt h) hUnit

theorem rational?_ofMagnitude (negative : Bool) {bits : Nat} (h : bits < infinityBits) :
    rational? (ofMagnitude negative bits) = some (worth negative bits) := by
  rw [rational?_eq, magnitude_ofMagnitude negative h.le, isNegative_ofMagnitude negative h.le,
    if_pos h]

theorem RoundedTo.magnitude_le_infinityBits {v : ℚ} {x : Float} (h : RoundedTo v x) :
    magnitude x ≤ infinityBits := by
  have hNumber := h.isNaN_eq
  rw [Number.isNaN_eq, decide_eq_false_iff_not] at hNumber
  exact not_lt.mp hNumber

theorem RoundedTo.rational?_eq {v : ℚ} {x : Float} (h : RoundedTo v x)
    (hFinite : magnitude x < infinityBits) : rational? x = some (worth false (magnitude x)) := by
  rw [Number.rational?_eq, if_pos hFinite, h.isNegative_eq]

/-- A value as near to the higher of two as to the lower lies in the upper half between them. -/
theorem half_le_of_abs_le {low high v : ℚ} (h : low < high) (hNear : |v - high| ≤ |v - low|) :
    low + high ≤ 2 * v := by
  by_contra hBelow
  rw [not_le] at hBelow
  rw [abs_sub_comm, abs_of_pos (by linarith), le_abs] at hNear
  rcases hNear with hNear | hNear
  · linarith
  · linarith

theorem le_half_of_abs_le {low high v : ℚ} (h : low < high) (hNear : |v - low| ≤ |v - high|) :
    2 * v ≤ low + high := by
  have hMirrored := half_le_of_abs_le (v := -v) (neg_lt_neg h) (by
    rwa [neg_sub_neg, neg_sub_neg, abs_sub_comm, abs_sub_comm high])
  linarith

/-- Two doubles that are equally near on either side are not both even with none in between. -/
theorem exists_between_of_even {x y : Float} (hx : magnitude x < infinityBits)
    (hEvenX : HasEvenSignificand x) (hEvenY : HasEvenSignificand y)
    (h : magnitude y < magnitude x) :
    ∃ z : Float, rational? z = some (worth false (magnitude y + 1)) ∧
      magnitude y + 1 < magnitude x := by
  rw [hasEvenSignificand_iff hx] at hEvenX
  rw [hasEvenSignificand_iff (h.trans hx)] at hEvenY
  exact ⟨_, rational?_ofMagnitude false (by omega), by omega⟩

/-- Larger rationals are rounded to larger doubles, or to the same. -/
theorem RoundedTo.magnitude_le {v w : ℚ} {x y : Float} (hx : RoundedTo v x) (hy : RoundedTo w y)
    (h : v ≤ w) : magnitude x ≤ magnitude y := by
  by_contra hMore
  rw [not_le] at hMore
  have hFinite : magnitude y < infinityBits := hMore.trans_le hx.magnitude_le_infinityBits
  have hLow := hy.rational?_eq hFinite
  rcases hx.magnitude_le_infinityBits.lt_or_eq with hLess | hInfinite
  · have hHigh := hx.rational?_eq hLess
    have hOrder := worth_strictMono hMore
    have hAbove := half_le_of_abs_le hOrder (hx.nearest _ hHigh y _ hLow)
    have hBelow := le_half_of_abs_le hOrder (hy.nearest _ hLow x _ hHigh)
    have hSame : w = v := by linarith
    subst hSame
    have hTie : |w - worth false (magnitude y)| = |w - worth false (magnitude x)| := by
      rw [abs_of_pos (by linarith), abs_sub_comm, abs_of_pos (by linarith)]
      linarith
    -- a tie leaves both significands even, so that there is a double in between, and that is nearer
    have hEvenX := hx.even _ hHigh y _ hLow hOrder.ne hTie
    have hEvenY := hy.even _ hLow x _ hHigh hOrder.ne' hTie.symm
    obtain ⟨z, hz, hInside⟩ := exists_between_of_even hLess hEvenX hEvenY hMore
    have hNext := worth_strictMono (Nat.lt_succ_self (magnitude y))
    have hLast := worth_strictMono hInside
    have hHalf := le_half_of_abs_le hNext (hy.nearest _ hLow z _ hz)
    linarith
  · have hOver : overflowPoint ≤ v := hx.isInf_iff.mp (by rw [isInf_eq, hInfinite, decide_eq_true rfl])
    have hInf := hy.isInf_iff.mpr (hOver.trans h)
    rw [isInf_eq, decide_eq_true_iff] at hInf
    omega

theorem RoundedTo.le {v w : ℚ} {x y : Float} (hx : RoundedTo v x) (hy : RoundedTo w y)
    (h : v ≤ w) : x ≤ y :=
  le_of_magnitude_le hx.isNegative_eq hy.isNegative_eq (hx.magnitude_le hy h)
    hy.magnitude_le_infinityBits

/-- What is rounded is not negative, and neither is the double. -/
theorem RoundedTo.nonneg {v : ℚ} {x : Float} (h : RoundedTo v x) : 0 ≤ x := by
  refine le_of_magnitude_le (by decide) h.isNegative_eq ?_ h.magnitude_le_infinityBits
  have hZero : magnitude 0 = 0 := by decide
  rw [hZero]
  exact Nat.zero_le _

/-- A rational is correctly rounded to one double only. -/
theorem RoundedTo.unique {v : ℚ} {x y : Float} (hx : RoundedTo v x) (hy : RoundedTo v y) :
    x = y := by
  rw [← ofMagnitude_self x, ← ofMagnitude_self y, hx.isNegative_eq, hy.isNegative_eq,
    Nat.le_antisymm (hx.magnitude_le hy le_rfl) (hy.magnitude_le hx le_rfl)]

end Scriptlet.Number
