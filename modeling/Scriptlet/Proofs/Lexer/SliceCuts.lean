import Scriptlet.Proofs.Lexer.Cutting

/-!
# Scriptlet — slices are cut by the lexical grammar

Each slice that the lexer takes is the piece that the lexical grammar wants to be
cut off in its place: whatever else a rule could match there is no longer. Where
a slice ends because the next character does not belong to it, that character
keeps every other match from going on as well.

## Results

* `Slice.Shows`             — the piece that a slice stands for.
* `IsCut`                   — a slice stands for what has to be cut off.
* `isCut_takeNumber`, `isCut_takeString`, `isCut_word` and so on — one for each kind.
* `isCut_firstSlice`        — every slice.
-/

namespace Scriptlet

open Scriptlet.Text Scriptlet.Number

-- ---------------------------------------------------------------------------
-- Longest matches
-- ---------------------------------------------------------------------------

/-- A prefix of members with a property is no longer than what is taken of them. -/
theorem length_le_takeWhile {p : Char → Bool} {cs rest : List Char} (hPrefix : cs <+: rest)
    (h : ∀ d ∈ cs, p d) : cs.length ≤ (rest.takeWhile p).length := by
  obtain ⟨more, hRest⟩ := hPrefix
  rw [← hRest, List.takeWhile_append_of_pos h, List.length_append]
  omega

/-- Only what a rule can match behind its first character has to be looked at. -/
theorem longest_cons {c : Char} {text rest : List Char}
    (h : ∀ {cs : List Char} {kind : TokenKind} {value : Value}, cs <+: text ++ rest →
      TokenRule (c :: cs) kind value → cs.length ≤ text.length) : Longest (c :: text) rest := by
  intro other kind value hPrefix hRule
  cases other with
  | nil => exact Nat.zero_le _
  | cons d cs =>
    obtain ⟨hFirst, hTail⟩ := List.cons_prefix_cons.mp hPrefix
    subst hFirst
    exact Nat.succ_le_succ (h hTail hRule)

/-- The digits and the fraction that are taken are the longest tail of a number. -/
theorem length_le_of_numberTail {cs rest : List Char} (hPrefix : cs <+: rest)
    (hTail : NumberTail cs) :
    cs.length ≤ (rest.takeWhile isDigit ++ (takeFraction (rest.dropWhile isDigit)).1).length := by
  rw [List.length_append]
  rcases hTail with hDigits | ⟨digits, d, fraction, hText, hDigits, hSecond, hFraction⟩
  · have hLess := length_le_takeWhile hPrefix hDigits
    omega
  · obtain ⟨more, hRest⟩ := hPrefix
    rw [hText, List.append_assoc, List.cons_append, List.cons_append] at hRest
    have hPoint : isDigit '.' = false := by decide
    have hTake : rest.takeWhile isDigit = digits := by
      rw [← hRest, List.takeWhile_append_of_pos hDigits,
        List.takeWhile_cons_of_neg (by simp [hPoint]), List.append_nil]
    have hDrop : rest.dropWhile isDigit = '.' :: d :: (fraction ++ more) := by
      rw [← hRest, List.dropWhile_append_of_pos hDigits,
        List.dropWhile_cons_of_neg (by simp [hPoint])]
    have hLess := length_le_takeWhile (List.prefix_append fraction more) hFraction
    rw [hTake, hDrop, takeFraction, if_pos hSecond, hText]
    simp only [List.length_append, List.length_cons]
    omega

/-- Behind an opening quote the first other quote is the last character of a string. -/
theorem length_le_of_stringTail {cs body after : List Char}
    (hPrefix : cs <+: body ++ ['"'] ++ after) (hTail : StringTail cs) :
    cs.length ≤ (body ++ ['"']).length := by
  obtain ⟨other, hText, hOther⟩ := hTail
  by_cases hLess : other.length ≤ body.length
  · rw [hText, List.length_append, List.length_append]
    omega
  · -- otherwise the closing quote would lie inside the other string
    have hClosed : body ++ ['"'] <+: other := by
      refine List.prefix_of_prefix_length_le (List.prefix_append (body ++ ['"']) after) ?_ ?_
      · rw [hText] at hPrefix
        exact (List.prefix_append other ['"']).trans hPrefix
      · rw [List.length_append, List.length_singleton]
        omega
    have hQuote : '"' ∈ other := hClosed.subset (by simp)
    exact absurd rfl (hOther _ hQuote)

-- ---------------------------------------------------------------------------
-- Slices and pieces
-- ---------------------------------------------------------------------------

/-- The piece that a slice stands for. -/
inductive Slice.Shows : Slice → Piece → Prop where
  | symbol {kind : TokenKind} {text : List Char} :
      Shows { kind := .symbol kind, text } (.token kind text .nil)
  | word {text : List Char} :
      Shows { kind := .word, text } (.token (.ofWord (String.ofList text)) text .nil)
  | number {text : List Char} :
      Shows { kind := .number, text } (.token .number text (.number (Numeral.plain text).value))
  | string {text : List Char} :
      Shows { kind := .string, text } (.token .string text (.text (unquoted text)))
  | blank {c : Char} : Shows { kind := .blank, text := [c] } (.blank c)
  | comment {body : List Char} :
      Shows { kind := .comment, text := '/' :: '/' :: body } (.comment body)
  | stray {c : Char} : Shows { kind := .stray, text := [c] } (.stray c)
  | unclosed {body : List Char} :
      Shows { kind := .unclosed, text := '"' :: body } (.unclosed body)

/-- A slice stands for a piece that has to be cut off in front of the rest. -/
def IsCut (cut : Slice × List Char) : Prop :=
  ∃ piece, cut.1.Shows piece ∧ Cut piece cut.2

theorem isCut_token {slice : Slice} {kind : TokenKind} {text rest : List Char} {value : Value}
    (hShows : slice.Shows (.token kind text value)) (hRule : TokenRule text kind value)
    (hLongest : Longest text rest) (hComment : ¬['/', '/'] <+: text ++ rest) :
    IsCut (slice, rest) := ⟨_, hShows, .token hRule hLongest hComment⟩

/-- A text that starts with anything but a slash starts no comment. -/
theorem not_comment {c : Char} {text : List Char} (h : c ≠ '/') : ¬['/', '/'] <+: c :: text := by
  intro hPrefix
  exact h (List.cons_prefix_cons.mp hPrefix).1.symm

/-- The digits and the fraction that are taken can follow a digit. -/
theorem numberTail_take (rest : List Char) :
    NumberTail (rest.takeWhile isDigit ++ (takeFraction (rest.dropWhile isDigit)).1) := by
  have hDigits : ∀ d ∈ rest.takeWhile isDigit, isDigit d :=
    List.all_eq_true.mp List.all_takeWhile
  unfold takeFraction
  split
  · next d more hDrop =>
    by_cases hSecond : isDigit d
    · rw [if_pos hSecond]
      exact .inr ⟨_, d, _, rfl, hDigits, hSecond, List.all_eq_true.mp List.all_takeWhile⟩
    · rw [if_neg hSecond, List.append_nil]
      exact .inl hDigits
  · rw [List.append_nil]
    exact .inl hDigits

theorem isCut_takeNumber {c : Char} (hDigit : isDigit c) (rest : List Char) :
    IsCut (takeNumber c rest) := by
  have hSlash : c ≠ '/' := by
    intro hEq
    rw [hEq] at hDigit
    exact absurd hDigit (by decide)
  have hTail := numberTail_take rest
  have hLess : ∀ {cs : List Char}, cs <+: rest → NumberTail cs → cs.length ≤
      (rest.takeWhile isDigit ++ (takeFraction (rest.dropWhile isDigit)).1).length :=
    fun hPrefix hNumber => length_le_of_numberTail hPrefix hNumber
  have hWhole := takeFraction_append (rest.dropWhile isDigit)
  unfold takeNumber
  generalize takeFraction (rest.dropWhile isDigit) = cut at hTail hLess hWhole ⊢
  obtain ⟨fraction, after⟩ := cut
  show IsCut ({ kind := .number, text := c :: (rest.takeWhile isDigit ++ fraction) }, after)
  refine isCut_token .number (tokenRule_number hDigit hTail) ?_ (not_comment hSlash)
  refine longest_cons ?_
  intro cs kind value hPrefix hRule
  rw [List.append_assoc, hWhole, List.takeWhile_append_dropWhile] at hPrefix
  exact hLess hPrefix (tokenRule_digit hDigit hRule).1

theorem isCut_takeString (rest : List Char) : IsCut (takeString '"' rest) := by
  unfold takeString
  have hBody : ∀ d ∈ rest.takeWhile (· != '"'), d ≠ '"' := by
    intro d hd
    simpa using List.all_eq_true.mp List.all_takeWhile d hd
  cases hDrop : rest.dropWhile (· != '"') with
  | nil =>
    have hWhole := @List.takeWhile_append_dropWhile Char (· != '"') rest
    rw [hDrop, List.append_nil] at hWhole
    rw [hWhole] at hBody
    exact ⟨_, .unclosed, .unclosed hBody⟩
  | cons close after =>
    have hClose : close = '"' := by
      have hHead := List.head?_dropWhile_not (· != '"') rest
      rw [hDrop] at hHead
      simpa using hHead
    subst hClose
    show IsCut ({ kind := .string, text := '"' :: (rest.takeWhile (· != '"') ++ ['"']) }, after)
    generalize rest.takeWhile (· != '"') = body at hBody ⊢
    have hValue : unquoted ('"' :: (body ++ ['"'])) = String.ofList body := by simp [unquoted]
    refine isCut_token .string ?_ ?_ (not_comment (by decide))
    · rw [hValue]
      exact .string hBody
    · refine longest_cons ?_
      intro cs kind value hPrefix hRule
      exact length_le_of_stringTail hPrefix (tokenRule_quote hRule).1

theorem isCut_takeSlash (rest : List Char) : IsCut (takeSlash '/' rest) := by
  unfold takeSlash
  split
  · next more =>
    have hBody : ∀ d ∈ more.takeWhile (· != '\n'), d ≠ '\n' := by
      intro d hd
      simpa using List.all_eq_true.mp List.all_takeWhile d hd
    refine ⟨_, .comment, .comment hBody ?_⟩
    cases hDrop : more.dropWhile (· != '\n') with
    | nil => exact .inl rfl
    | cons d after =>
      have hHead := List.head?_dropWhile_not (· != '\n') more
      rw [hDrop] at hHead
      have hLine : d = '\n' := by simpa using hHead
      rw [hLine]
      exact .inr ⟨after, rfl⟩
  · next hNoComment =>
    refine isCut_token .symbol tokenRule_slash ?_ ?_
    · refine longest_cons ?_
      intro cs kind value hPrefix hRule
      have hNil := eq_nil_of_slash hRule
      subst hNil
      exact Nat.le_refl _
    · intro hPrefix
      obtain ⟨more, hRest⟩ := (List.cons_prefix_cons.mp hPrefix).2
      exact hNoComment more hRest.symm

/-- The characters that an equals sign extends, as the lexical grammar has them. -/
theorem fixed_of_paired {c : Char} {alone extended : TokenKind}
    (hPaired : pairedSymbol? c = some (alone, extended)) :
    ([c], alone) ∈ fixedTokens ∧ ([c, '='], extended) ∈ fixedTokens ∧ c ≠ '/' := by
  unfold pairedSymbol? at hPaired
  split at hPaired
  case h_5 => cases hPaired
  all_goals
    cases hPaired
    decide

theorem isCut_takePaired {c : Char} {alone extended : TokenKind}
    (hPaired : pairedSymbol? c = some (alone, extended)) (rest : List Char) :
    IsCut (takePaired c alone extended rest) := by
  obtain ⟨hAlone, hExtended, hSlash⟩ := fixed_of_paired hPaired
  unfold takePaired
  split
  · next more =>
    refine isCut_token .symbol (.fixed hExtended) ?_ (not_comment hSlash)
    refine longest_cons ?_
    intro cs kind value hPrefix hRule
    rcases eq_of_paired hPaired hRule with hNil | hEqual
    · subst hNil
      exact Nat.zero_le _
    · subst hEqual
      exact Nat.le_refl _
  · next hNoEqual =>
    refine isCut_token .symbol (.fixed hAlone) ?_ (not_comment hSlash)
    refine longest_cons ?_
    intro cs kind value hPrefix hRule
    rcases eq_of_paired hPaired hRule with hNil | hEqual
    · subst hNil
      exact Nat.le_refl _
    · rw [hEqual] at hPrefix
      obtain ⟨more, hRest⟩ := hPrefix
      exact absurd hRest.symm (hNoEqual more)

theorem fixed_of_single {c : Char} {kind : TokenKind} (hSingle : singleSymbol? c = some kind) :
    ([c], kind) ∈ fixedTokens ∧ c ≠ '/' := by
  unfold singleSymbol? at hSingle
  split at hSingle
  case h_11 => cases hSingle
  all_goals
    cases hSingle
    decide

theorem isCut_single {c : Char} {kind : TokenKind} (hSingle : singleSymbol? c = some kind)
    (rest : List Char) : IsCut ({ kind := .symbol kind, text := [c] }, rest) := by
  obtain ⟨hFixed, hSlash⟩ := fixed_of_single hSingle
  refine isCut_token .symbol (.fixed hFixed) ?_ (not_comment hSlash)
  refine longest_cons ?_
  intro cs kind value hPrefix hRule
  have hNil := eq_nil_of_single hSingle hRule
  subst hNil
  exact Nat.le_refl _

theorem isCut_word {c : Char} (hLetter : isLetter c) (rest : List Char) :
    IsCut ({ kind := .word, text := c :: rest.takeWhile isWordChar },
      rest.dropWhile isWordChar) := by
  have hSlash : c ≠ '/' := by
    intro hEq
    rw [hEq] at hLetter
    exact absurd hLetter (by decide)
  have hWord : ∀ d ∈ rest.takeWhile isWordChar, isWordChar d :=
    List.all_eq_true.mp List.all_takeWhile
  refine isCut_token .word ?_ ?_ (not_comment hSlash)
  · by_cases hKeyword : ∃ kind, (String.ofList (c :: rest.takeWhile isWordChar), kind) ∈ keywords
    · obtain ⟨kind, hKind⟩ := hKeyword
      rw [ofWord_of_mem hKind]
      exact .keyword hLetter hWord hKind
    · have hNone : ∀ kind, (String.ofList (c :: rest.takeWhile isWordChar), kind) ∉ keywords :=
        fun kind hKind => hKeyword ⟨kind, hKind⟩
      rw [ofWord_of_not_mem hNone]
      exact .identifier hLetter hWord hNone
  · refine longest_cons ?_
    intro cs kind value hPrefix hRule
    rw [List.takeWhile_append_dropWhile] at hPrefix
    exact length_le_takeWhile hPrefix (tokenRule_letter hLetter hRule).1

/-- The lexical grammar starts its fixed tokens with no other characters than the lexer. -/
theorem first_fixed {c : Char} {cs : List Char} {kind : TokenKind}
    (h : (c :: cs, kind) ∈ fixedTokens) :
    (singleSymbol? c).isSome ∨ (pairedSymbol? c).isSome ∨ c = '/' := by
  have hAll : fixedTokens.all (fun entry => entry.1.head?.all fun d =>
      (singleSymbol? d).isSome || (pairedSymbol? d).isSome || d == '/') = true := by decide
  have hHere := List.all_eq_true.mp hAll (c :: cs, kind) h
  simpa [or_assoc] using hHere

/-- Every slice is the piece that has to be cut off in its place. -/
theorem isCut_firstSlice (c : Char) (rest : List Char) : IsCut (firstSlice c rest) := by
  unfold firstSlice
  cases hSingle : singleSymbol? c with
  | some kind => exact isCut_single hSingle rest
  | none =>
    cases hPaired : pairedSymbol? c with
    | some pair =>
      obtain ⟨alone, extended⟩ := pair
      exact isCut_takePaired hPaired rest
    | none =>
      dsimp only
      by_cases hSlash : c = '/'
      · subst hSlash
        exact isCut_takeSlash rest
      · rw [if_neg (by simpa using hSlash)]
        by_cases hLayout : isLayout c
        · rw [if_pos hLayout]
          exact ⟨_, .blank, .blank (isLayout_iff.mp hLayout)⟩
        · rw [if_neg hLayout]
          by_cases hQuote : c = '"'
          · subst hQuote
            exact isCut_takeString rest
          · rw [if_neg (by simpa using hQuote)]
            by_cases hDigit : isDigit c
            · rw [if_pos hDigit]
              exact isCut_takeNumber hDigit rest
            · rw [if_neg hDigit]
              by_cases hLetter : isLetter c
              · rw [if_pos hLetter]
                exact isCut_word hLetter rest
              · rw [if_neg hLetter]
                -- no rule is left for the character
                refine ⟨_, .stray, .stray (fun hMem => hLayout (isLayout_iff.mpr hMem)) ?_⟩
                intro cs kind value hRule
                have hFixed := tokenRule_fixed (Bool.eq_false_iff.mpr hDigit)
                  (Bool.eq_false_iff.mpr hLetter) hQuote hRule
                rcases first_fixed hFixed with hSome | hSome | hSome
                · rw [hSingle] at hSome
                  cases hSome
                · rw [hPaired] at hSome
                  cases hSome
                · exact hSlash hSome

end Scriptlet
