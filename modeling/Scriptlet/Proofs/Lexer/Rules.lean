import Scriptlet.Lexer.Slice

/-!
# Scriptlet — the lexical grammar

What the tokens of the language look like, one rule a kind of token, without a
word about how they are found. A text matches at most one rule, up to its kind
and its value. What a rule can match is settled by its first character to a
large part; these facts are stated once here, one for each class of characters.

## Results

* `fixedTokens`             — the tokens that are always spelled the same.
* `TokenRule`               — the rules, with the kind and the value of the token.
* `tokenRule_cons`          — what a token with a given first character looks like.
* `eq_nil_of_single`, `eq_of_paired`, `tokenRule_digit` and so on — by class.
-/

namespace Scriptlet

open Scriptlet.Text Scriptlet.Number

-- ---------------------------------------------------------------------------
-- Rules
-- ---------------------------------------------------------------------------

/-- The tokens that are always spelled the same. -/
def fixedTokens : List (List Char × TokenKind) :=
  [(['('], .leftParen), ([')'], .rightParen), (['{'], .leftBrace), (['}'], .rightBrace),
    ([','], .comma), (['.'], .dot), ([';'], .semicolon), (['+'], .plus), (['-'], .minus),
    (['*'], .star), (['/'], .slash),
    (['!'], .bang), (['!', '='], .bangEqual), (['='], .equal), (['=', '='], .equalEqual),
    (['<'], .less), (['<', '='], .lessEqual), (['>'], .greater), (['>', '='], .greaterEqual)]

/-- The texts that a rule allows for a token, with the token's kind and value. -/
inductive TokenRule : List Char → TokenKind → Value → Prop where
  | fixed {text : List Char} {kind : TokenKind} (h : (text, kind) ∈ fixedTokens) :
      TokenRule text kind .nil
  | whole {c : Char} {digits : List Char} (hFirst : isDigit c)
      (hDigits : ∀ d ∈ digits, isDigit d) :
      TokenRule (c :: digits) .number (.number (Numeral.plain (c :: digits)).value)
  /-- Digits stand on both sides of the point. -/
  | decimal {c d : Char} {digits fraction : List Char} (hFirst : isDigit c)
      (hDigits : ∀ d ∈ digits, isDigit d) (hSecond : isDigit d)
      (hFraction : ∀ d ∈ fraction, isDigit d) :
      TokenRule (c :: (digits ++ '.' :: d :: fraction)) .number
        (.number (Numeral.plain (c :: (digits ++ '.' :: d :: fraction))).value)
  /-- The value is what stands between the quotes. -/
  | string {body : List Char} (hBody : ∀ d ∈ body, d ≠ '"') :
      TokenRule ('"' :: (body ++ ['"'])) .string (.text (String.ofList body))
  | keyword {c : Char} {cs : List Char} {kind : TokenKind} (hFirst : isLetter c)
      (hWord : ∀ d ∈ cs, isWordChar d) (h : (String.ofList (c :: cs), kind) ∈ keywords) :
      TokenRule (c :: cs) kind .nil
  | identifier {c : Char} {cs : List Char} (hFirst : isLetter c)
      (hWord : ∀ d ∈ cs, isWordChar d)
      (h : ∀ kind, (String.ofList (c :: cs), kind) ∉ keywords) :
      TokenRule (c :: cs) .identifier .nil

-- ---------------------------------------------------------------------------
-- First characters
-- ---------------------------------------------------------------------------

/-- What may follow the first digit of a number. -/
def NumberTail (cs : List Char) : Prop :=
  (∀ d ∈ cs, isDigit d) ∨
    ∃ digits d fraction, cs = digits ++ '.' :: d :: fraction ∧ (∀ d ∈ digits, isDigit d) ∧
      isDigit d ∧ ∀ d ∈ fraction, isDigit d

/-- What may follow the opening quote of a string. -/
def StringTail (cs : List Char) : Prop := ∃ body, cs = body ++ ['"'] ∧ ∀ d ∈ body, d ≠ '"'

theorem ofWord_of_mem {word : String} {kind : TokenKind} (h : (word, kind) ∈ keywords) :
    TokenKind.ofWord word = kind := by
  have hAll : ∀ entry ∈ keywords, TokenKind.ofWord entry.1 = entry.2 := by decide
  exact hAll (word, kind) h

theorem ofWord_of_not_mem {word : String} (h : ∀ kind, (word, kind) ∉ keywords) :
    TokenKind.ofWord word = .identifier := by
  have hNone : keywords.lookup word = none := by
    rw [List.lookup_eq_none_iff]
    intro entry hEntry
    rw [bne_iff_ne]
    intro hWord
    subst hWord
    exact h entry.2 hEntry
  rw [TokenKind.ofWord, hNone]
  rfl

/-- The rules by the first character of what they match. -/
theorem tokenRule_cons {c : Char} {cs : List Char} {kind : TokenKind} {value : Value}
    (h : TokenRule (c :: cs) kind value) :
    (c :: cs, kind) ∈ fixedTokens ∨ (isDigit c ∧ NumberTail cs ∧ kind = .number) ∨
      (c = '"' ∧ StringTail cs ∧ kind = .string) ∨
      (isLetter c ∧ (∀ d ∈ cs, isWordChar d) ∧ kind = .ofWord (String.ofList (c :: cs))) := by
  cases h with
  | fixed hFixed => exact .inl hFixed
  | whole hFirst hDigits => exact .inr (.inl ⟨hFirst, .inl hDigits, rfl⟩)
  | decimal hFirst hDigits hSecond hFraction =>
    exact .inr (.inl ⟨hFirst, .inr ⟨_, _, _, rfl, hDigits, hSecond, hFraction⟩, rfl⟩)
  | string hBody => exact .inr (.inr (.inl ⟨rfl, ⟨_, rfl, hBody⟩, rfl⟩))
  | keyword hFirst hWord hKeyword =>
    exact .inr (.inr (.inr ⟨hFirst, hWord, (ofWord_of_mem hKeyword).symm⟩))
  | identifier hFirst hWord hNone =>
    exact .inr (.inr (.inr ⟨hFirst, hWord, (ofWord_of_not_mem hNone).symm⟩))

theorem tokenRule_ne_nil {text : List Char} {kind : TokenKind} {value : Value}
    (h : TokenRule text kind value) : text ≠ [] := by
  intro hNil
  subst hNil
  cases h with
  | fixed hFixed => exact absurd hFixed (by simp [fixedTokens])

/-- What starts a fixed token starts no token of another kind and is no layout. -/
theorem first_of_fixed {c : Char} {cs : List Char} {kind : TokenKind}
    (h : (c :: cs, kind) ∈ fixedTokens) :
    isDigit c = false ∧ isLetter c = false ∧ c ≠ '"' ∧ isLayout c = false := by
  have hAll : fixedTokens.all (fun entry => entry.1.head?.all fun d =>
      !isDigit d && !isLetter d && d != '"' && !isLayout d) = true := by decide
  have hHere := List.all_eq_true.mp hAll (c :: cs, kind) h
  simpa [and_assoc] using hHere

theorem isLetter_of_isDigit {c : Char} (h : isDigit c) : isLetter c = false := by
  simp only [isDigit, Bool.and_eq_true, decide_eq_true_eq, Char.le_def, UInt32.le_iff_toNat_le]
    at h
  simp only [isLetter, Bool.or_eq_false_iff, Bool.and_eq_false_iff, decide_eq_false_iff_not,
    Char.le_def, UInt32.le_iff_toNat_le, beq_eq_false_iff_ne]
  refine ⟨⟨.inl ?_, .inl ?_⟩, ?_⟩
  · have hA : ('a' : Char).val.toNat = 97 := rfl
    have hNine : ('9' : Char).val.toNat = 57 := rfl
    omega
  · have hA : ('A' : Char).val.toNat = 65 := rfl
    have hNine : ('9' : Char).val.toNat = 57 := rfl
    omega
  · intro hUnderscore
    subst hUnderscore
    exact absurd h.2 (by decide)

/-- A character that starts no number, no word and no string starts fixed tokens at most. -/
theorem tokenRule_fixed {c : Char} {cs : List Char} {kind : TokenKind} {value : Value}
    (hDigit : isDigit c = false) (hLetter : isLetter c = false) (hQuote : c ≠ '"')
    (h : TokenRule (c :: cs) kind value) : (c :: cs, kind) ∈ fixedTokens := by
  rcases tokenRule_cons h with hFixed | ⟨hFirst, -⟩ | ⟨hFirst, -⟩ | ⟨hFirst, -⟩
  · exact hFixed
  · rw [hDigit] at hFirst
    cases hFirst
  · exact absurd hFirst hQuote
  · rw [hLetter] at hFirst
    cases hFirst

theorem tokenRule_digit {c : Char} {cs : List Char} {kind : TokenKind} {value : Value}
    (hDigit : isDigit c) (h : TokenRule (c :: cs) kind value) :
    NumberTail cs ∧ kind = .number := by
  rcases tokenRule_cons h with hFixed | ⟨-, hTail⟩ | ⟨hFirst, -⟩ | ⟨hFirst, -⟩
  · rw [(first_of_fixed hFixed).1] at hDigit
    cases hDigit
  · exact hTail
  · rw [hFirst] at hDigit
    exact absurd hDigit (by decide)
  · rw [isLetter_of_isDigit hDigit] at hFirst
    cases hFirst

/-- A digit and what may follow it are a number. -/
theorem tokenRule_number {c : Char} {cs : List Char} (hDigit : isDigit c) (hTail : NumberTail cs) :
    TokenRule (c :: cs) .number (.number (Numeral.plain (c :: cs)).value) := by
  rcases hTail with hDigits | ⟨digits, d, fraction, hText, hDigits, hSecond, hFraction⟩
  · exact .whole hDigit hDigits
  · rw [hText]
    exact .decimal hDigit hDigits hSecond hFraction

theorem tokenRule_letter {c : Char} {cs : List Char} {kind : TokenKind} {value : Value}
    (hLetter : isLetter c) (h : TokenRule (c :: cs) kind value) :
    (∀ d ∈ cs, isWordChar d) ∧ kind = .ofWord (String.ofList (c :: cs)) := by
  rcases tokenRule_cons h with hFixed | ⟨hFirst, -⟩ | ⟨hFirst, -⟩ | ⟨-, hWord⟩
  · rw [(first_of_fixed hFixed).2.1] at hLetter
    cases hLetter
  · rw [isLetter_of_isDigit hFirst] at hLetter
    cases hLetter
  · rw [hFirst] at hLetter
    exact absurd hLetter (by decide)
  · exact hWord

theorem tokenRule_quote {cs : List Char} {kind : TokenKind} {value : Value}
    (h : TokenRule ('"' :: cs) kind value) : StringTail cs ∧ kind = .string := by
  rcases tokenRule_cons h with hFixed | ⟨hFirst, -⟩ | ⟨-, hBody⟩ | ⟨hFirst, -⟩
  · exact absurd rfl (first_of_fixed hFixed).2.2.1
  · exact absurd hFirst (by decide)
  · exact hBody
  · exact absurd hFirst (by decide)

/-- No token starts with layout. -/
theorem not_tokenRule_layout {c : Char} {cs : List Char} {kind : TokenKind} {value : Value}
    (hLayout : isLayout c) : ¬TokenRule (c :: cs) kind value := by
  intro h
  have hFour : c = ' ' ∨ c = '\r' ∨ c = '\t' ∨ c = '\n' := by
    simpa [isLayout, or_assoc] using hLayout
  have hPlain : isDigit c = false ∧ isLetter c = false ∧ c ≠ '"' := by
    rcases hFour with hChar | hChar | hChar | hChar
    all_goals
      rw [hChar]
      decide
  have hFixed := tokenRule_fixed hPlain.1 hPlain.2.1 hPlain.2.2 h
  rw [(first_of_fixed hFixed).2.2.2] at hLayout
  cases hLayout

theorem eq_nil_of_slash {cs : List Char} {kind : TokenKind} {value : Value}
    (h : TokenRule ('/' :: cs) kind value) : cs = [] := by
  have hFixed := tokenRule_fixed (by decide) (by decide) (by decide) h
  simp [fixedTokens] at hFixed
  exact hFixed.1

/-- A character that is a token by itself is the whole token. -/
theorem eq_nil_of_single {c : Char} {cs : List Char} {kind single : TokenKind} {value : Value}
    (hSingle : singleSymbol? c = some single) (h : TokenRule (c :: cs) kind value) : cs = [] := by
  unfold singleSymbol? at hSingle
  split at hSingle
  case h_11 => cases hSingle
  all_goals
    have hFixed := tokenRule_fixed (by decide) (by decide) (by decide) h
    simp [fixedTokens] at hFixed
    exact hFixed.1

/-- A character that an equals sign extends is followed by at most that in a token. -/
theorem eq_of_paired {c : Char} {cs : List Char} {kind alone extended : TokenKind} {value : Value}
    (hPaired : pairedSymbol? c = some (alone, extended)) (h : TokenRule (c :: cs) kind value) :
    cs = [] ∨ cs = ['='] := by
  unfold pairedSymbol? at hPaired
  split at hPaired
  case h_5 => cases hPaired
  all_goals
    have hFixed := tokenRule_fixed (by decide) (by decide) (by decide) h
    simp [fixedTokens] at hFixed
    rcases hFixed with ⟨hNil, -⟩ | ⟨hEqual, -⟩
    · exact .inl hNil
    · exact .inr hEqual

-- ---------------------------------------------------------------------------
-- One token a text
-- ---------------------------------------------------------------------------

theorem kind_unique {text : List Char} {kind kind' : TokenKind} {value value' : Value}
    (h : TokenRule text kind value) (h' : TokenRule text kind' value') : kind = kind' := by
  cases text with
  | nil => exact absurd rfl (tokenRule_ne_nil h)
  | cons c cs =>
    rcases tokenRule_cons h with hFixed | ⟨hDigit, -, hKind⟩ | ⟨hQuote, -, hKind⟩ |
      ⟨hLetter, -, hKind⟩
    · obtain ⟨hDigit, hLetter, hQuote, -⟩ := first_of_fixed hFixed
      have hFixed' := tokenRule_fixed hDigit hLetter hQuote h'
      have hAll : ∀ entry ∈ fixedTokens, ∀ entry' ∈ fixedTokens, entry.1 = entry'.1 →
          entry.2 = entry'.2 := by decide
      exact hAll _ hFixed _ hFixed' rfl
    · rw [hKind, (tokenRule_digit hDigit h').2]
    · subst hQuote
      rw [hKind, (tokenRule_quote h').2]
    · rw [hKind, (tokenRule_letter hLetter h').2]

/-- The kinds of fixed tokens and of words have no value. -/
theorem kind_plain {kind : TokenKind}
    (h : (∃ text, (text, kind) ∈ fixedTokens) ∨ (∃ word, (word, kind) ∈ keywords)) :
    kind ≠ .number ∧ kind ≠ .string ∧ kind ≠ .eof := by
  rcases h with ⟨text, hFixed⟩ | ⟨word, hKeyword⟩
  · have hAll : ∀ entry ∈ fixedTokens, entry.2 ≠ .number ∧ entry.2 ≠ .string ∧ entry.2 ≠ .eof := by
      decide
    exact hAll (text, kind) hFixed
  · have hAll : ∀ entry ∈ keywords, entry.2 ≠ .number ∧ entry.2 ≠ .string ∧ entry.2 ≠ .eof := by
      decide
    exact hAll (word, kind) hKeyword

/-- The value of a token, read off its kind and its text. -/
theorem value_eq {text : List Char} {kind : TokenKind} {value : Value}
    (h : TokenRule text kind value) :
    value = if kind = .number then .number (Numeral.plain text).value
      else if kind = .string then .text (unquoted text) else .nil := by
  cases h with
  | fixed hFixed =>
    obtain ⟨hNumber, hString, -⟩ := kind_plain (.inl ⟨_, hFixed⟩)
    rw [if_neg hNumber, if_neg hString]
  | whole hFirst hDigits => rfl
  | decimal hFirst hDigits hSecond hFraction => rfl
  | string hBody => simp [unquoted]
  | keyword hFirst hWord hKeyword =>
    obtain ⟨hNumber, hString, -⟩ := kind_plain (.inr ⟨_, hKeyword⟩)
    rw [if_neg hNumber, if_neg hString]
  | identifier hFirst hWord hNone => rfl

/-- A text is a token in at most one way. -/
theorem tokenRule_unique {text : List Char} {kind kind' : TokenKind} {value value' : Value}
    (h : TokenRule text kind value) (h' : TokenRule text kind' value') :
    kind = kind' ∧ value = value' := by
  have hKind := kind_unique h h'
  subst hKind
  exact ⟨rfl, (value_eq h).trans (value_eq h').symm⟩

/-- No text is the end of the file. -/
theorem kind_ne_eof {text : List Char} {kind : TokenKind} {value : Value}
    (h : TokenRule text kind value) : kind ≠ .eof := by
  cases h with
  | fixed hFixed => exact (kind_plain (.inl ⟨_, hFixed⟩)).2.2
  | whole hFirst hDigits => decide
  | decimal hFirst hDigits hSecond hFraction => decide
  | string hBody => decide
  | keyword hFirst hWord hKeyword => exact (kind_plain (.inr ⟨_, hKeyword⟩)).2.2
  | identifier hFirst hWord hNone => decide

end Scriptlet
