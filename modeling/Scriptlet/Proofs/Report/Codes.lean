import Mathlib.Data.List.Basic
import Scriptlet.Proofs.Report.Written

/-!
# Scriptlet — escape codes in what is written

Taking the escape codes out of painted text gives the text back. A paint may put
codes in front of a text and behind it and nothing else; of text that has no
escape character of its own nothing is then lost or kept, wherever it stands.

## Results

* `withoutCodes`            — text with its escape codes taken out.
* `Covers`                  — text that is another one but for codes, whatever follows.
* `Paint.Wraps`             — a paint that adds codes only; `wraps_terminal` is one.
* `covers_text`             — a notice, painted and plain.
* `covers_textIn`           — everything written, painted and plain.
-/

namespace Scriptlet

-- ---------------------------------------------------------------------------
-- Taking codes out
-- ---------------------------------------------------------------------------

/-- How long the escape code is that a text starts with, if it does: `ESC [ digits m`. -/
def codeLength? : List Char → Option Nat
  | '\x1b' :: '[' :: rest =>
    let digits := rest.takeWhile Char.isDigit
    if digits ≠ [] ∧ rest[digits.length]? = some 'm' then some (digits.length + 3) else none
  | _ => none

/-- Characters without their escape codes, once some that belong to a code are skipped. -/
def dropCodes : Nat → List Char → List Char
  | _, [] => []
  | skip + 1, _ :: rest => dropCodes skip rest
  | 0, c :: rest =>
    match codeLength? (c :: rest) with
    | some length => dropCodes (length - 1) rest
    | none => c :: dropCodes 0 rest

/-- Text with every escape code taken out, from left to right. -/
def withoutCodes (text : String) : String := String.ofList (dropCodes 0 text.toList)

theorem dropCodes_skip (skip : Nat) (cs : List Char) :
    dropCodes skip cs = dropCodes 0 (cs.drop skip) := by
  induction skip generalizing cs with
  | zero => rfl
  | succ skip ih =>
    cases cs with
    | nil => rfl
    | cons c rest => exact ih rest

/-- Only an escape character starts a code. -/
theorem dropCodes_cons {c : Char} (h : c ≠ '\x1b') (rest : List Char) :
    dropCodes 0 (c :: rest) = c :: dropCodes 0 rest := by
  have hNone : codeLength? (c :: rest) = none := by
    unfold codeLength?
    split
    · next hEq =>
      cases hEq
      exact absurd rfl h
    · rfl
  rw [dropCodes, hNone]

/-- A code is taken out as a whole. -/
theorem dropCodes_code {digits : List Char} (hSome : digits ≠ [])
    (hDigits : ∀ c ∈ digits, c.isDigit = true) (rest : List Char) :
    dropCodes 0 ('\x1b' :: '[' :: (digits ++ 'm' :: rest)) = dropCodes 0 rest := by
  have hTake : (digits ++ 'm' :: rest).takeWhile Char.isDigit = digits := by
    rw [List.takeWhile_append_of_pos hDigits]
    simp
  have hLength : codeLength? ('\x1b' :: '[' :: (digits ++ 'm' :: rest)) =
      some (digits.length + 3) := by
    simp [codeLength?, hTake, hSome]
  rw [dropCodes, hLength]
  show dropCodes (digits.length + 2) ('[' :: (digits ++ 'm' :: rest)) = _
  rw [dropCodes_skip]
  simp

-- ---------------------------------------------------------------------------
-- Text that codes are added to
-- ---------------------------------------------------------------------------

/-- Text without an escape character. -/
def Unescaped (text : String) : Prop := '\x1b' ∉ text.toList

instance (text : String) : Decidable (Unescaped text) :=
  inferInstanceAs (Decidable ('\x1b' ∉ text.toList))

theorem unescaped_append {a b : String} :
    Unescaped (a ++ b) ↔ Unescaped a ∧ Unescaped b := by
  unfold Unescaped
  rw [String.toList_append, List.mem_append, not_or]

/-- A text that is the other one but for escape codes, whatever stands behind it. -/
def Covers (painted text : String) : Prop :=
  ∀ rest, dropCodes 0 (painted.toList ++ rest) = text.toList ++ dropCodes 0 rest

theorem withoutCodes_of_covers {painted text : String} (h : Covers painted text) :
    withoutCodes painted = text := by
  have hAll := h []
  rw [List.append_nil, dropCodes, List.append_nil] at hAll
  rw [withoutCodes, hAll, String.ofList_toList]

theorem Covers.append {painted text further more : String} (h : Covers painted text)
    (hMore : Covers further more) : Covers (painted ++ further) (text ++ more) := by
  intro rest
  rw [String.toList_append, String.toList_append, List.append_assoc, List.append_assoc, h,
    hMore]

/-- Text without an escape character is left as it is. -/
theorem covers_self {text : String} (h : Unescaped text) : Covers text text := by
  unfold Unescaped at h
  unfold Covers
  generalize text.toList = cs at h ⊢
  intro rest
  induction cs with
  | nil => rfl
  | cons c cs ih =>
    rw [List.mem_cons, not_or] at h
    obtain ⟨hThis, hMore⟩ := h
    rw [List.cons_append, dropCodes_cons (Ne.symm hThis), ih hMore, List.cons_append]

-- ---------------------------------------------------------------------------
-- Paints
-- ---------------------------------------------------------------------------

/-- Escape codes, one behind the other. -/
inductive IsCodes : String → Prop where
  | none : IsCodes ""
  | code {digits codes : String} (hSome : digits ≠ "")
      (hDigits : ∀ c ∈ digits.toList, c.isDigit = true) :
      IsCodes codes → IsCodes (escapeCode digits ++ codes)

theorem IsCodes.append {a b : String} (ha : IsCodes a) (hb : IsCodes b) : IsCodes (a ++ b) := by
  induction ha with
  | none => simpa using hb
  | code hSome hDigits _ ih =>
    rw [String.append_assoc]
    exact .code hSome hDigits ih

theorem isCodes_escapeCode {digits : String} (hSome : digits ≠ "")
    (hDigits : ∀ c ∈ digits.toList, c.isDigit = true) : IsCodes (escapeCode digits) := by
  have h := IsCodes.code hSome hDigits .none
  rwa [String.append_empty] at h

/-- Codes are nothing but codes. -/
theorem covers_codes {codes : String} (h : IsCodes codes) : Covers codes "" := by
  induction h with
  | none =>
    intro rest
    rfl
  | @code digits codes hSome hDigits _ ih =>
    have hThis : Covers (escapeCode digits) "" := by
      intro rest
      have hNonempty : digits.toList ≠ [] := by simpa using hSome
      have hCode := dropCodes_code hNonempty hDigits rest
      simpa [escapeCode] using hCode
    exact hThis.append ih

/-- A paint that puts codes around a text and does nothing else to it. -/
def Paint.Wraps (paint : Paint) : Prop :=
  ∀ text color attributes, ∃ before after, IsCodes before ∧ IsCodes after ∧
    paint text color attributes = before ++ text ++ after

theorem covers_paint {paint : Paint} (h : paint.Wraps) {text : String} (hText : Unescaped text)
    (color : Option Color) (attributes : List Attribute) :
    Covers (paint text color attributes) text := by
  obtain ⟨before, after, hBefore, hAfter, hEq⟩ := h text color attributes
  have hAll := ((covers_codes hBefore).append (covers_self hText)).append (covers_codes hAfter)
  rw [hEq]
  simpa using hAll

theorem isCodes_color (color : Color) : IsCodes (escapeCode color.code) := by
  cases color <;> exact isCodes_escapeCode (by decide) (List.all_eq_true.mp rfl)

theorem isCodes_attribute (a : Attribute) : IsCodes (escapeCode a.code) := by
  cases a <;> exact isCodes_escapeCode (by decide) (List.all_eq_true.mp rfl)

/-- The codes of attributes stand in front of what they apply to, the last one first. -/
theorem exists_isCodes_foldl (attributes : List Attribute) (inner : String) :
    ∃ codes, IsCodes codes ∧
      attributes.foldl (fun inner a => escapeCode a.code ++ inner) inner = codes ++ inner := by
  induction attributes generalizing inner with
  | nil => exact ⟨"", .none, by simp⟩
  | cons a rest ih =>
    obtain ⟨codes, hCodes, hEq⟩ := ih (escapeCode a.code ++ inner)
    refine ⟨codes ++ escapeCode a.code, hCodes.append (isCodes_attribute a), ?_⟩
    rw [List.foldl_cons, hEq, String.append_assoc]

theorem wraps_terminal : Paint.terminal.Wraps := by
  intro text color attributes
  have hColor : IsCodes ((color.map (escapeCode ·.code)).getD "") := by
    cases color with
    | none => exact .none
    | some color => exact isCodes_color color
  obtain ⟨codes, hCodes, hEq⟩ :=
    exists_isCodes_foldl attributes ((color.map (escapeCode ·.code)).getD "" ++ text)
  refine ⟨codes ++ (color.map (escapeCode ·.code)).getD "", escapeCode "0",
    hCodes.append hColor, isCodes_escapeCode (by decide) (List.all_eq_true.mp rfl), ?_⟩
  unfold Paint.terminal
  dsimp only
  rw [hEq, ← String.append_assoc]

-- ---------------------------------------------------------------------------
-- Notices
-- ---------------------------------------------------------------------------

/-- A notice without an escape character. -/
def Notice.Unescaped (n : Notice) : Prop := Scriptlet.Unescaped (n.text .plain)

theorem covers_format {paint : Paint} (h : paint.Wraps) {d : Diagnostic}
    (hPlain : Unescaped (d.format .plain)) : Covers (d.format paint) (d.format .plain) := by
  simp only [Diagnostic.format, Paint.plain, unescaped_append] at hPlain ⊢
  obtain ⟨⟨⟨⟨⟨⟨⟨hOpen, hLine⟩, hClose⟩, hSpace⟩, hLabel⟩, hPlace⟩, hColon⟩, hMessage⟩ := hPlain
  have hMarker : Unescaped ("[line " ++ toString d.line ++ "]") :=
    unescaped_append.mpr ⟨unescaped_append.mpr ⟨hOpen, hLine⟩, hClose⟩
  have hCategory : Unescaped (d.category ++ "Error") := unescaped_append.mpr hLabel
  -- the marker and the label are painted, and all else is the same text
  have hFront := ((covers_paint h hMarker none [.bold]).append (covers_self hSpace)).append
    (covers_paint h hCategory (some .red) [.bold])
  exact ((hFront.append (covers_self hPlace)).append (covers_self hColon)).append
    (covers_self hMessage)

theorem covers_text {paint : Paint} (h : paint.Wraps) {n : Notice} (hPlain : n.Unescaped) :
    Covers (n.text paint) (n.text .plain) := by
  cases n with
  | diagnostic d => exact covers_format h hPlain
  | plain text => exact covers_self hPlain
  | failure message internal =>
    simp only [Notice.Unescaped, Notice.text, unescaped_append] at hPlain
    obtain ⟨⟨hInternal, hError⟩, hMessage⟩ := hPlain
    refine (Covers.append ?_ (covers_paint h hError _ _)).append (covers_self hMessage)
    cases internal with
    | false => exact covers_self hInternal
    | true => exact covers_paint h hInternal _ _

-- ---------------------------------------------------------------------------
-- Everything written
-- ---------------------------------------------------------------------------

/-- By induction on the notices, each with the line end behind it. -/
theorem covers_lines {paint : Paint} (h : paint.Wraps) {notices : List Notice}
    (hNotices : ∀ n ∈ notices, n.Unescaped) :
    Covers (Notice.lines paint notices) (Notice.lines .plain notices) := by
  unfold Notice.lines
  induction notices with
  | nil => exact covers_codes .none
  | cons n rest ih =>
    obtain ⟨hThis, hRest⟩ := List.forall_mem_cons.mp hNotices
    rw [List.map_cons, List.map_cons, String.join_cons, String.join_cons]
    exact ((covers_text h hThis).append (covers_self (by decide))).append (ih hRest)

namespace Reporter

/-- Notices none of which has an escape character. -/
def Unescaped (r : Reporter) : Prop := ∀ n ∈ r.notices.toList, n.Unescaped

theorem covers_textIn {paint : Paint} (h : paint.Wraps) {r : Reporter} (hPlain : r.Unescaped) :
    Covers (r.textIn paint) (r.textIn .plain) :=
  covers_lines h hPlain

end Reporter

end Scriptlet
