import Scriptlet.Number.Numeral
import Scriptlet.Proofs.Number.Rationals
import Scriptlet.Value

/-!
# Scriptlet — what is shown of a number reads back

A double is shown by digits, written with a point or with an exponent, whichever
layout asks for. Zeros that are dropped at the end or filled in move the point
and leave the value as it is, so what is written is a numeral of the same value
as the decimal, and the double nearest to that value is the one that is shown.

## Results

* `Numeral.decimal`         — what a numeral denotes.
* `Numeral.WrittenAs`, `readBare?_of_writtenAs` — a numeral and a text that is read as it.
* `pointed`                 — the value of digits with a point among them.
* `exists_writtenAs`        — a decimal is laid out as a numeral of its value.
* `shownNumber?_numberText` — every double but NaN is read back from its text.
-/

namespace Scriptlet.Number

open Scriptlet.Text

-- ---------------------------------------------------------------------------
-- Digits
-- ---------------------------------------------------------------------------

/-- Digits in front count for more, by the number of digits behind them. -/
theorem ofDigits_append (ds more : List Char) :
    ofDigits (ds ++ more) = ofDigits ds * 10 ^ more.length + ofDigits more := by
  induction more using List.reverseRecOn with
  | nil => simp [ofDigits]
  | append_singleton more c ih =>
    rw [← List.append_assoc, ofDigits_append_singleton, ih, ofDigits_append_singleton,
      List.length_append, List.length_singleton, Nat.pow_succ]
    ring

theorem ofDigits_zeros (k : Nat) : ofDigits (List.replicate k '0') = 0 := by
  induction k with
  | zero => rfl
  | succ k ih => rwa [List.replicate_succ, ofDigits, List.foldl_cons]

theorem ofDigits_append_zeros (ds : List Char) (k : Nat) :
    ofDigits (ds ++ List.replicate k '0') = ofDigits ds * 10 ^ k := by
  rw [ofDigits_append, ofDigits_zeros, List.length_replicate, Nat.add_zero]

theorem ofDigits_zeros_append (k : Nat) (ds : List Char) :
    ofDigits (List.replicate k '0' ++ ds) = ofDigits ds := by
  rw [ofDigits_append, ofDigits_zeros, Nat.zero_mul, Nat.zero_add]

theorem digits_ne_nil (n : Nat) : digits n ≠ [] := by
  rw [digits]
  split
  · exact List.cons_ne_nil _ _
  · exact List.append_ne_nil_of_right_ne_nil _ (List.cons_ne_nil _ _)

theorem isDigit_of_mem_zeros {k : Nat} {c : Char} (h : c ∈ List.replicate k '0') :
    isDigit c = true := by
  rw [(List.mem_replicate.mp h).2]
  rfl

/-- Only zeros are trimmed. -/
theorem exists_eq_trimZeros_append (ds : List Char) :
    ∃ k, ds = trimZeros ds ++ List.replicate k '0' := by
  have hZeros : ∀ c ∈ ds.reverse.takeWhile (· == '0'), c = '0' := fun c hc => by
    simpa using List.mem_takeWhile_imp hc
  refine ⟨(ds.reverse.takeWhile (· == '0')).length, ?_⟩
  rw [← List.reverse_inj, trimZeros, List.reverse_append, List.reverse_reverse,
    List.reverse_replicate, ← List.eq_replicate_of_mem hZeros]
  exact List.takeWhile_append_dropWhile.symm

-- ---------------------------------------------------------------------------
-- Numerals
-- ---------------------------------------------------------------------------

/-- The decimal that a numeral denotes but for its sign. -/
def Numeral.decimal (n : Numeral) : Decimal where
  digits := n.significand
  exponent := n.exponent - n.fraction.length

/-- A point and the digits behind it, if there are any. -/
def fractionText (fraction : List Char) : List Char :=
  if fraction = [] then [] else '.' :: fraction

/-- A numeral without sign and exponent, as it is written. -/
def Numeral.plainText (n : Numeral) : List Char := n.whole ++ fractionText n.fraction

/-- The text is the numeral but for its sign: digits, maybe with a point, and an exponent. -/
structure Numeral.WrittenAs (n : Numeral) (text : List Char) : Prop where
  whole_ne_nil : n.whole ≠ []
  whole : ∀ c ∈ n.whole, isDigit c = true
  fraction : ∀ c ∈ n.fraction, isDigit c = true
  text_eq : ∃ tail, text = n.whole ++ (fractionText n.fraction ++ tail) ∧
    Numeral.readExponent? tail = some n.exponent

/-- An exponent is nothing, or starts with its letter. -/
theorem eq_nil_or_letter_of_readExponent? {tail : List Char} {e : Int}
    (h : Numeral.readExponent? tail = some e) :
    tail = [] ∨ ∃ c rest, tail = c :: rest ∧ (c = 'e' ∨ c = 'E') := by
  cases tail with
  | nil => exact .inl rfl
  | cons c rest =>
    refine .inr ⟨c, rest, rfl, ?_⟩
    simp only [Numeral.readExponent?, Option.ite_none_right_eq_some] at h
    have hLetter := h.1
    simp only [Bool.and_eq_true, Bool.or_eq_true, beq_iff_eq] at hLetter
    exact hLetter.1.1

/-- Digits are taken as far as they go. -/
theorem takeWhile_dropWhile_digits {ds rest : List Char} (hDigits : ∀ c ∈ ds, isDigit c = true)
    (hRest : rest = [] ∨ ∃ c more, rest = c :: more ∧ isDigit c = false) :
    (ds ++ rest).takeWhile isDigit = ds ∧ (ds ++ rest).dropWhile isDigit = rest := by
  rw [List.takeWhile_append_of_pos hDigits, List.dropWhile_append_of_pos hDigits]
  rcases hRest with rfl | ⟨c, more, rfl, hNone⟩
  · simp
  · simp [hNone]

theorem writtenAs_plainText {n : Numeral} (hSome : n.whole ≠ [])
    (hWhole : ∀ c ∈ n.whole, isDigit c = true) (hFraction : ∀ c ∈ n.fraction, isDigit c = true)
    (hNone : n.exponent = 0) : n.WrittenAs n.plainText := by
  refine ⟨hSome, hWhole, hFraction, [], ?_, ?_⟩
  · rw [List.append_nil, Numeral.plainText]
  · rw [hNone]
    rfl

/-- A text that is a numeral is read as it, after whatever sign is taken off. -/
theorem readBare?_of_takeSign {n : Numeral} {text cs : List Char} {negative : Bool}
    (h : n.WrittenAs text) (hSign : Numeral.takeSign cs = (negative, text)) :
    Numeral.readBare? cs = some { n with negative } := by
  obtain ⟨tail, hText, hExponent⟩ := h.text_eq
  have hEnd := eq_nil_or_letter_of_readExponent? hExponent
  have hNoDigit : tail = [] ∨ ∃ c more, tail = c :: more ∧ isDigit c = false := by
    rcases hEnd with hNil | ⟨c, rest, hCons, rfl | rfl⟩
    · exact .inl hNil
    · exact .inr ⟨_, rest, hCons, by decide⟩
    · exact .inr ⟨_, rest, hCons, by decide⟩
  have hBehind : fractionText n.fraction ++ tail = [] ∨
      ∃ c more, fractionText n.fraction ++ tail = c :: more ∧ isDigit c = false := by
    unfold fractionText
    split
    · exact hNoDigit
    · exact .inr ⟨_, _, rfl, by decide⟩
  obtain ⟨hWhole, hRest⟩ := takeWhile_dropWhile_digits h.whole hBehind
  unfold Numeral.readBare?
  rw [hSign, hText]
  dsimp only
  rw [hWhole, hRest]
  by_cases hNone : n.fraction = []
  · rw [fractionText, if_pos hNone, List.nil_append]
    -- what follows is no point
    rcases hEnd with rfl | ⟨c, rest, rfl, rfl | rfl⟩
    all_goals simp [h.whole_ne_nil, hExponent, hNone]
  · rw [fractionText, if_neg hNone]
    obtain ⟨hFraction, hTail⟩ := takeWhile_dropWhile_digits h.fraction hNoDigit
    simp [h.whole_ne_nil, hFraction, hTail, hExponent]

/-- A numeral without a sign starts with a digit. -/
theorem Numeral.WrittenAs.exists_first {n : Numeral} {text : List Char} (h : n.WrittenAs text) :
    ∃ c rest, text = c :: rest ∧ isDigit c = true := by
  obtain ⟨tail, hText, -⟩ := h.text_eq
  obtain ⟨c, rest, hWhole⟩ := List.exists_cons_of_ne_nil h.whole_ne_nil
  refine ⟨c, rest ++ (fractionText n.fraction ++ tail), ?_, h.whole c ?_⟩
  · rw [hText, hWhole, List.cons_append]
  · rw [hWhole]
    exact List.mem_cons_self

theorem takeSign_of_digit {c : Char} (h : isDigit c = true) (rest : List Char) :
    Numeral.takeSign (c :: rest) = (false, c :: rest) := by
  unfold Numeral.takeSign
  split
  · next hMinus =>
    rw [(List.cons.inj hMinus).1] at h
    exact absurd h (by decide)
  · next hPlus =>
    rw [(List.cons.inj hPlus).1] at h
    exact absurd h (by decide)
  · rfl

-- ---------------------------------------------------------------------------
-- Layouts
-- ---------------------------------------------------------------------------

/-- The value of digits with a point behind the first `point` of them. -/
def pointed (ds : List Char) (point : Int) : ℚ := ofDigits ds * 10 ^ (point - ds.length)

/-- Zeros at the end make no difference. -/
theorem pointed_append_zeros (ds : List Char) (k : Nat) (point : Int) :
    pointed (ds ++ List.replicate k '0') point = pointed ds point := by
  have hTen : (10 : ℚ) ≠ 0 := by norm_num
  have hSplit : point - ds.length = (k : Int) + (point - (ds.length + k : Nat)) := by
    push_cast
    ring
  rw [pointed, pointed, ofDigits_append_zeros, List.length_append, List.length_replicate, hSplit,
    zpow_add₀ hTen, zpow_natCast]
  push_cast
  ring

theorem value_eq_pointed (d : Decimal) :
    d.value = pointed (trimZeros (digits d.digits)) ((digits d.digits).length + d.exponent) := by
  obtain ⟨k, hDigits⟩ := exists_eq_trimZeros_append (digits d.digits)
  rw [← pointed_append_zeros _ k, ← hDigits, pointed, ofDigits_digits, add_sub_cancel_left]
  rfl

/-- A numeral has the value of its digits with the point moved by its exponent. -/
theorem value_decimal (n : Numeral) :
    n.decimal.value = pointed (n.whole ++ n.fraction) (n.whole.length + n.exponent) := by
  unfold Numeral.decimal Decimal.value pointed
  rw [List.length_append]
  push_cast
  congr 2
  ring

variable {ds : List Char} (hDigits : ∀ c ∈ ds, isDigit c = true) (hSome : ds ≠ [])

include hDigits hSome

/-- Digits with a point among them are a numeral without an exponent. -/
theorem writtenAs_positional (point : Int) :
    ∃ n : Numeral, n.WrittenAs n.plainText ∧ n.exponent = 0 ∧
      positional ds point = n.plainText ∧ n.decimal.value = pointed ds point := by
  unfold positional
  split
  · next hPoint =>
    refine ⟨{ whole := ['0'], fraction := List.replicate (-point).toNat '0' ++ ds },
      writtenAs_plainText (List.cons_ne_nil _ _) (List.forall_mem_singleton.mpr rfl) ?_ rfl, rfl,
      ?_, ?_⟩
    · intro c hc
      exact (List.mem_append.mp hc).elim isDigit_of_mem_zeros (hDigits c)
    · simp [Numeral.plainText, fractionText, hSome]
    · have hZeros : ['0'] ++ (List.replicate (-point).toNat '0' ++ ds) =
          List.replicate ((-point).toNat + 1) '0' ++ ds := by
        rw [List.replicate_succ]
        rfl
      rw [value_decimal, hZeros, pointed, pointed, ofDigits_zeros_append]
      congr 2
      rw [List.length_append, List.length_replicate, List.length_singleton]
      dsimp only
      omega
  · split
    · next hBehind =>
      refine ⟨{ whole := ds ++ List.replicate (point.toNat - ds.length) '0' },
        writtenAs_plainText (List.append_ne_nil_of_left_ne_nil hSome _) ?_ (by simp) rfl, rfl,
        ?_, ?_⟩
      · intro c hc
        exact (List.mem_append.mp hc).elim (hDigits c) isDigit_of_mem_zeros
      · simp [Numeral.plainText, fractionText]
      · rw [value_decimal, List.append_nil, pointed_append_zeros, List.length_append,
          List.length_replicate]
        dsimp only
        congr 1
        omega
    · next hWithin =>
      refine ⟨{ whole := ds.take point.toNat, fraction := ds.drop point.toNat },
        writtenAs_plainText ?_ (fun c hc => hDigits c (List.mem_of_mem_take hc))
          (fun c hc => hDigits c (List.mem_of_mem_drop hc)) rfl, rfl, ?_, ?_⟩
      · rw [ne_eq, List.take_eq_nil_iff]
        have hPoint : point.toNat ≠ 0 := by omega
        exact fun hNone => hNone.elim hPoint hSome
      · have hMore : ds.drop point.toNat ≠ [] := by
          rw [ne_eq, List.drop_eq_nil_iff]
          omega
        simp [Numeral.plainText, fractionText, hMore]
      · have hLength : (ds.take point.toNat).length = point.toNat := by
          rw [List.length_take]
          omega
        rw [value_decimal, List.take_append_drop, hLength]
        dsimp only
        congr 1
        omega

omit hDigits hSome

theorem readExponent?_exponentText (count : Nat) (e : Int) :
    Numeral.readExponent? ('e' :: exponentText count e) = some e := by
  let ds := List.replicate (count - (digits e.natAbs).length) '0' ++ digits e.natAbs
  have hDigits : ∀ c ∈ ds, isDigit c = true := fun c hc =>
    (List.mem_append.mp hc).elim isDigit_of_mem_zeros (isDigit_of_mem_digits _ c)
  have hSome : ds ≠ [] := List.append_ne_nil_of_right_ne_nil _ (digits_ne_nil _)
  have hValue : ofDigits ds = e.natAbs := by rw [ofDigits_zeros_append, ofDigits_digits]
  have hSign : Numeral.takeSign (exponentText count e) = (decide (e < 0), ds) := by
    unfold exponentText
    by_cases hNegative : e < 0
    · simp [hNegative, Numeral.takeSign, ds]
    · simp [hNegative, Numeral.takeSign, ds]
  rw [Numeral.readExponent?, hSign]
  simp only [beq_self_eq_true, Bool.true_or, Bool.true_and, Bool.and_eq_true,
    Bool.not_eq_true', List.isEmpty_eq_false_iff, List.all_eq_true]
  rw [if_pos ⟨hSome, hDigits⟩, hValue]
  congr 1
  simp only [decide_eq_true_eq]
  split <;> omega

include hDigits hSome

/-- One digit, the others behind a point, and an exponent are a numeral. -/
theorem writtenAs_scientific (count : Nat) (e : Int) :
    ∃ n : Numeral, n.WrittenAs (scientific count ds e) ∧ n.decimal.value = pointed ds (e + 1) := by
  obtain ⟨d, rest, rfl⟩ := List.exists_cons_of_ne_nil hSome
  refine ⟨{ whole := [d], fraction := rest, exponent := e }, ?_, ?_⟩
  · refine ⟨List.cons_ne_nil _ _, fun c hc => hDigits c ?_, fun c hc => hDigits c ?_,
      'e' :: exponentText count e, ?_, readExponent?_exponentText count e⟩
    · rw [List.mem_singleton.mp hc]
      exact List.mem_cons_self
    · exact List.mem_cons_of_mem _ hc
    · cases rest <;> simp [scientific, fractionText]
  · rw [value_decimal, List.length_singleton, List.singleton_append, add_comm]
    rfl

omit hDigits hSome

/-- The layout writes the decimal with a point and zeros only. -/
def Layout.IsPositional (layout : Layout) (d : Decimal) : Prop :=
  layout.leastPositional ≤ (digits d.digits).length + d.exponent - 1 ∧
    (digits d.digits).length + d.exponent - 1 < layout.firstScientific

/-- A decimal other than zero is laid out as a numeral of its value. -/
theorem exists_writtenAs (layout : Layout) {d : Decimal} (h : 0 < d.digits) :
    ∃ n : Numeral, n.WrittenAs (layout.text d) ∧ n.decimal.value = d.value ∧
      (layout.IsPositional d → n.exponent = 0 ∧ layout.text d = n.plainText) := by
  obtain ⟨k, hTrimmed⟩ := exists_eq_trimZeros_append (digits d.digits)
  have hDigits : ∀ c ∈ trimZeros (digits d.digits), isDigit c = true := by
    intro c hc
    refine isDigit_of_mem_digits d.digits c ?_
    rw [hTrimmed]
    exact List.mem_append_left _ hc
  have hSome : trimZeros (digits d.digits) ≠ [] := by
    intro hNone
    have hValue := ofDigits_digits d.digits
    rw [hTrimmed, hNone, ofDigits_append_zeros, ofDigits, List.foldl_nil, Nat.zero_mul] at hValue
    omega
  rw [value_eq_pointed]
  unfold Layout.text
  dsimp only
  split
  · obtain ⟨n, hWritten, hExponent, hText, hValue⟩ := writtenAs_positional hDigits hSome
      ((digits d.digits).length + d.exponent)
    rw [hText]
    exact ⟨n, hWritten, hValue, fun _ => ⟨hExponent, rfl⟩⟩
  · next hScientific =>
    obtain ⟨n, hWritten, hValue⟩ := writtenAs_scientific hDigits hSome layout.exponentDigits
      ((digits d.digits).length + d.exponent - 1)
    rw [sub_add_cancel] at hValue
    exact ⟨n, hWritten, hValue, fun hPositional => absurd hPositional hScientific⟩

-- ---------------------------------------------------------------------------
-- Doubles
-- ---------------------------------------------------------------------------

/-- The sign that is shown of a number. -/
def signText (negative : Bool) : List Char := if negative then ['-'] else []

/-- What is shown of a finite double is a numeral that denotes it. -/
theorem exists_writtenAs_numberText {x : Float} (h : magnitude x < infinityBits) :
    ∃ (n : Numeral) (text : List Char), n.WrittenAs text ∧
      (numberText x).toList = signText (isNegative x) ++ text ∧ n.decimal.bits = magnitude x ∧
      (magnitude x = 0 ∨ numberLayout.IsPositional (shortest (magnitude x)) →
        n.exponent = 0 ∧ text = n.plainText) := by
  have hSign (body : String) : ((if isNegative x then "-" else "") ++ body).toList =
      signText (isNegative x) ++ body.toList := by
    cases isNegative x <;> simp [signText]
  unfold numberText
  dsimp only
  rw [if_neg (Nat.lt_asymm h), if_neg (Nat.ne_of_lt h)]
  by_cases hZero : magnitude x = 0
  · have hWritten : ({ whole := ['0'] } : Numeral).WrittenAs ['0'] :=
      ⟨List.cons_ne_nil _ _, List.forall_mem_singleton.mpr rfl, by simp, [], rfl, rfl⟩
    refine ⟨_, _, hWritten, ?_, ?_, fun _ => ⟨rfl, rfl⟩⟩
    · rw [if_pos hZero, hSign]
      rfl
    · rw [hZero]
      exact nearest_zero Nat.one_pos
  · obtain ⟨n, hWritten, hValue, hPositional⟩ :=
      exists_writtenAs numberLayout (digits_shortest_pos (Nat.pos_of_ne_zero hZero) h)
    refine ⟨n, _, hWritten, ?_, ?_, fun hHow => hPositional (hHow.resolve_left hZero)⟩
    · rw [if_neg hZero, hSign, String.toList_ofList]
    · rw [Decimal.bits_eq_of_value_eq hValue, bits_shortest h]

theorem numberText_of_infinite {x : Float} (h : magnitude x = infinityBits) :
    (numberText x).toList = signText (isNegative x) ++ ['i', 'n', 'f'] := by
  unfold numberText
  dsimp only
  rw [if_neg (Nat.not_lt_of_le (Nat.le_of_eq h)), if_pos h]
  cases isNegative x <;> simp [signText]

/-- The double that a text shows. -/
def shownNumber? (text : List Char) : Option Float :=
  let (negative, rest) := Numeral.takeSign text
  if rest = ['i', 'n', 'f'] then some (ofMagnitude negative infinityBits)
  else (Numeral.readBare? text).map fun n => ofMagnitude n.negative n.decimal.bits

/-- Every double but NaN is read back from its text. -/
theorem shownNumber?_numberText {x : Float} (h : magnitude x ≤ infinityBits) :
    shownNumber? (numberText x).toList = some x := by
  have hSelf := ofMagnitude_self x
  rcases Nat.lt_or_eq_of_le h with hFinite | hInfinite
  · obtain ⟨n, text, hWritten, hText, hBits, -⟩ := exists_writtenAs_numberText hFinite
    obtain ⟨c, rest, hFirst, hDigit⟩ := hWritten.exists_first
    have hSign : Numeral.takeSign (signText (isNegative x) ++ text) = (isNegative x, text) := by
      cases isNegative x with
      | true => rfl
      | false =>
        rw [hFirst]
        exact takeSign_of_digit hDigit rest
    have hNumber : text ≠ ['i', 'n', 'f'] := by
      intro hInf
      rw [hFirst] at hInf
      rw [(List.cons.inj hInf).1] at hDigit
      exact absurd hDigit (by decide)
    unfold shownNumber?
    rw [hText, hSign, readBare?_of_takeSign hWritten hSign]
    dsimp only
    rw [if_neg hNumber, Option.map_some]
    show some (ofMagnitude (isNegative x) n.decimal.bits) = some x
    rw [hBits, hSelf]
  · have hSign : Numeral.takeSign (signText (isNegative x) ++ ['i', 'n', 'f']) =
        (isNegative x, ['i', 'n', 'f']) := by
      cases isNegative x <;> rfl
    unfold shownNumber?
    rw [numberText_of_infinite hInfinite, hSign]
    dsimp only
    rw [if_pos rfl, ← hInfinite, hSelf]

/-- The characters of an exponent. -/
theorem mem_exponent {tail : List Char} {e : Int} (h : Numeral.readExponent? tail = some e) :
    ∀ c ∈ tail, isDigit c = true ∨ c ∈ ['e', 'E', '+', '-'] := by
  cases tail with
  | nil => simp
  | cons letter rest =>
    have hSome := h
    simp only [Numeral.readExponent?, Option.ite_none_right_eq_some, Bool.and_eq_true,
      Bool.or_eq_true, beq_iff_eq, List.all_eq_true] at hSome
    obtain ⟨⟨⟨hLetter, -⟩, hDigits⟩, -⟩ := hSome
    intro c hc
    rcases List.mem_cons.mp hc with rfl | hRest
    · rcases hLetter with rfl | rfl
      · exact .inr (by decide)
      · exact .inr (by decide)
    · unfold Numeral.takeSign at hDigits
      split at hDigits
      · rcases List.mem_cons.mp hRest with rfl | hMore
        · exact .inr (by decide)
        · exact .inl (hDigits c hMore)
      · rcases List.mem_cons.mp hRest with rfl | hMore
        · exact .inr (by decide)
        · exact .inl (hDigits c hMore)
      · exact .inl (hDigits c hRest)

/-- The characters of a numeral. -/
theorem Numeral.WrittenAs.mem {n : Numeral} {text : List Char} (h : n.WrittenAs text) :
    ∀ c ∈ text, isDigit c = true ∨ c ∈ ['.', 'e', 'E', '+', '-'] := by
  obtain ⟨tail, hText, hExponent⟩ := h.text_eq
  intro c hc
  rw [hText] at hc
  rcases List.mem_append.mp hc with hWhole | hBehind
  · exact .inl (h.whole c hWhole)
  · rcases List.mem_append.mp hBehind with hFraction | hTail
    · unfold fractionText at hFraction
      split at hFraction
      · cases hFraction
      · rcases List.mem_cons.mp hFraction with rfl | hDigit
        · exact .inr (by decide)
        · exact .inl (h.fraction c hDigit)
    · exact (mem_exponent hExponent c hTail).imp_right (List.mem_cons_of_mem _)

/-- The characters that are shown of a double, and the first of them. -/
theorem mem_numberText {x : Float} (h : magnitude x ≤ infinityBits) :
    (∀ c ∈ (numberText x).toList,
      isDigit c = true ∨ c ∈ ['.', 'e', 'E', '+', '-', 'i', 'n', 'f']) ∧
      ∃ c rest, (numberText x).toList = c :: rest ∧ (isDigit c = true ∨ c = '-' ∨ c = 'i') := by
  have hSign : ∀ c ∈ signText (isNegative x), c = '-' := by
    cases isNegative x <;> simp [signText]
  have hFirst {text : List Char}
      (hText : ∃ c rest, text = c :: rest ∧ (isDigit c = true ∨ c = 'i')) :
      ∃ c rest, signText (isNegative x) ++ text = c :: rest ∧
        (isDigit c = true ∨ c = '-' ∨ c = 'i') := by
    obtain ⟨c, rest, rfl, hc⟩ := hText
    cases isNegative x with
    | true => exact ⟨'-', c :: rest, rfl, .inr (.inl rfl)⟩
    | false => exact ⟨c, rest, rfl, hc.imp_right .inr⟩
  rcases Nat.lt_or_eq_of_le h with hFinite | hInfinite
  · obtain ⟨n, text, hWritten, hText, -, -⟩ := exists_writtenAs_numberText hFinite
    rw [hText]
    refine ⟨?_, hFirst ?_⟩
    · intro c hc
      rcases List.mem_append.mp hc with hMinus | hNumeral
      · rw [hSign c hMinus]
        exact .inr (by decide)
      · exact (hWritten.mem c hNumeral).imp_right fun hOther =>
          List.mem_append_left ['i', 'n', 'f'] hOther
    · obtain ⟨c, rest, hCons, hDigit⟩ := hWritten.exists_first
      exact ⟨c, rest, hCons, .inl hDigit⟩
  · rw [numberText_of_infinite hInfinite]
    refine ⟨?_, hFirst ⟨_, _, rfl, .inr rfl⟩⟩
    intro c hc
    rcases List.mem_append.mp hc with hMinus | hInf
    · rw [hSign c hMinus]
      exact .inr (by decide)
    · exact .inr (List.mem_append_right ['.', 'e', 'E', '+', '-'] hInf)

end Scriptlet.Number
