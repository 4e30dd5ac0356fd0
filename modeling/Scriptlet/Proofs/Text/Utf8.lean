/-!
# Scriptlet — well-formed UTF-8

Which bytes are the encoding of a text can be told from the bytes alone, one
character after the other: the first byte of a character says how many follow it,
and the second one keeps clear of what could be written shorter, of surrogates
and of code points past the last one.

## Results

* `Utf8.CharBytes`          — the bytes of one character.
* `Utf8.WellFormed`         — the bytes of a text.
* `charBytes_iff`           — they are the encodings of characters.
* `wellFormed_iff`          — they are the encodings of texts.
-/

namespace Scriptlet.Text.Utf8

-- ---------------------------------------------------------------------------
-- Bytes
-- ---------------------------------------------------------------------------

/-- A byte that can only go on with a character. -/
def Continues (b : UInt8) : Prop := 0x80 ≤ b.toNat ∧ b.toNat ≤ 0xBF

/-- The bytes of one character. -/
inductive CharBytes : List UInt8 → Prop where
  | one {a : UInt8} (ha : a.toNat ≤ 0x7F) : CharBytes [a]
  | two {a b : UInt8} (ha : 0xC2 ≤ a.toNat ∧ a.toNat ≤ 0xDF) (hb : Continues b) :
      CharBytes [a, b]
  /-- Nothing that fits into two bytes, and no surrogate. -/
  | three {a b c : UInt8} (ha : 0xE0 ≤ a.toNat ∧ a.toNat ≤ 0xEF) (hb : Continues b)
      (hc : Continues c) (hLong : a.toNat = 0xE0 → 0xA0 ≤ b.toNat)
      (hSurrogate : a.toNat = 0xED → b.toNat ≤ 0x9F) : CharBytes [a, b, c]
  /-- Nothing that fits into three bytes, and nothing past the last code point. -/
  | four {a b c d : UInt8} (ha : 0xF0 ≤ a.toNat ∧ a.toNat ≤ 0xF4) (hb : Continues b)
      (hc : Continues c) (hd : Continues d) (hLong : a.toNat = 0xF0 → 0x90 ≤ b.toNat)
      (hLast : a.toNat = 0xF4 → b.toNat ≤ 0x8F) : CharBytes [a, b, c, d]

/-- The bytes of a text, character by character. -/
inductive WellFormed : List UInt8 → Prop where
  | nil : WellFormed []
  | cons {char rest : List UInt8} (hChar : CharBytes char) (hRest : WellFormed rest) :
      WellFormed (char ++ rest)

-- ---------------------------------------------------------------------------
-- One character
-- ---------------------------------------------------------------------------

theorem charBytes_encode (c : Char) : CharBytes (String.utf8EncodeChar c) := by
  have hValid : c.val.toNat < 0xD800 ∨ (0xDFFF < c.val.toNat ∧ c.val.toNat < 0x110000) := c.valid
  unfold String.utf8EncodeChar
  generalize c.val.toNat = v at hValid
  have hByte : ∀ n, n < 256 → (UInt8.ofNat n).toNat = n := fun n hn =>
    UInt8.toNat_ofNat_of_lt' hn
  have hTail : ∀ n, Continues (UInt8.ofNat (n % 64 + 128)) := by
    intro n
    unfold Continues
    rw [hByte _ (by omega)]
    omega
  dsimp only
  split
  · refine .one ?_
    rw [hByte _ (by omega)]
    assumption
  · split
    · refine .two ?_ (hTail v)
      rw [hByte _ (by omega)]
      omega
    · split
      · refine .three ?_ (hTail _) (hTail v) ?_ ?_
        all_goals
          repeat rw [hByte _ (by omega)]
          omega
      · refine .four ?_ (hTail _) (hTail _) (hTail v) ?_ ?_
        all_goals
          repeat rw [hByte _ (by omega)]
          omega

theorem exists_char {v : Nat} (h : v < 0xD800 ∨ (0xDFFF < v ∧ v < 0x110000)) :
    ∃ c : Char, c.val.toNat = v := by
  have hSize : v < UInt32.size := by
    have hBits : UInt32.size = 4294967296 := rfl
    omega
  exact ⟨⟨UInt32.ofNatLT v hSize, h⟩, rfl⟩

theorem exists_encode {bytes : List UInt8} (h : CharBytes bytes) :
    ∃ c, String.utf8EncodeChar c = bytes := by
  have hByte : ∀ {n : Nat} {b : UInt8}, n = b.toNat → UInt8.ofNat n = b := by
    rintro _ b rfl
    exact UInt8.ofNat_toNat
  cases h with
  | @one a ha =>
    obtain ⟨c, hc⟩ := exists_char (v := a.toNat) (by omega)
    refine ⟨c, ?_⟩
    unfold String.utf8EncodeChar
    dsimp only
    rw [hc, if_pos ha, hByte rfl]
  | @two a b ha hb =>
    unfold Continues at hb
    obtain ⟨c, hc⟩ := exists_char (v := (a.toNat - 0xC0) * 64 + (b.toNat - 0x80)) (by omega)
    refine ⟨c, ?_⟩
    unfold String.utf8EncodeChar
    dsimp only
    rw [hc, if_neg (by omega), if_pos (by omega), @hByte _ a (by omega), @hByte _ b (by omega)]
  | @three a b d ha hb hd hLong hSurrogate =>
    unfold Continues at hb hd
    obtain ⟨c, hc⟩ := exists_char
      (v := ((a.toNat - 0xE0) * 64 + (b.toNat - 0x80)) * 64 + (d.toNat - 0x80)) (by omega)
    refine ⟨c, ?_⟩
    unfold String.utf8EncodeChar
    dsimp only
    rw [hc, if_neg (by omega), if_neg (by omega), if_pos (by omega), @hByte _ a (by omega),
      @hByte _ b (by omega), @hByte _ d (by omega)]
  | @four a b d e ha hb hd he hLong hLast =>
    unfold Continues at hb hd he
    obtain ⟨c, hc⟩ := exists_char (v := (((a.toNat - 0xF0) * 64 + (b.toNat - 0x80)) * 64 +
      (d.toNat - 0x80)) * 64 + (e.toNat - 0x80)) (by omega)
    refine ⟨c, ?_⟩
    unfold String.utf8EncodeChar
    dsimp only
    rw [hc, if_neg (by omega), if_neg (by omega), if_neg (by omega), @hByte _ a (by omega),
      @hByte _ b (by omega), @hByte _ d (by omega), @hByte _ e (by omega)]

/-- The bytes of one character are what one is encoded in. -/
theorem charBytes_iff {bytes : List UInt8} :
    CharBytes bytes ↔ ∃ c, String.utf8EncodeChar c = bytes := by
  refine ⟨exists_encode, ?_⟩
  rintro ⟨c, rfl⟩
  exact charBytes_encode c

-- ---------------------------------------------------------------------------
-- Texts
-- ---------------------------------------------------------------------------

/-- The bytes of a text are what one is encoded in. -/
theorem wellFormed_iff {bytes : List UInt8} :
    WellFormed bytes ↔ ∃ text : List Char, text.flatMap String.utf8EncodeChar = bytes := by
  constructor
  · intro h
    induction h with
    | nil => exact ⟨[], rfl⟩
    | cons hChar _ ih =>
      obtain ⟨c, rfl⟩ := charBytes_iff.mp hChar
      obtain ⟨text, rfl⟩ := ih
      exact ⟨c :: text, List.flatMap_cons⟩
  · rintro ⟨text, rfl⟩
    induction text with
    | nil => exact .nil
    | cons c rest ih =>
      rw [List.flatMap_cons]
      exact .cons (charBytes_encode c) ih

/-- A file holds the encoding of a text exactly if its bytes are well-formed. -/
theorem exists_utf8Encode_iff {bytes : ByteArray} :
    (∃ text : List Char, bytes = text.utf8Encode) ↔ WellFormed bytes.data.toList := by
  rw [wellFormed_iff]
  refine exists_congr fun text => ?_
  unfold List.utf8Encode
  constructor
  · intro h
    rw [h, List.data_toByteArray]
  · intro h
    rw [h]
    exact ByteArray.ext (List.data_toByteArray ..).symm

end Scriptlet.Text.Utf8
