import Scriptlet.Proofs.Lexer.Rules

/-!
# Scriptlet — source text cut by the lexical grammar

A source is cut into pieces: tokens, single blanks, comments, single characters
that start nothing, and at the very end possibly a string that is not closed. A
token is the longest one there is at its place. Nothing here says how the pieces
are found, and yet every source can be cut in one way at most.

## Results

* `Piece`, `Cut`, `Cutting` — pieces, one cut, and a whole source.
* `Longest`                 — no longer token starts at the same place.
* `Cut.piece_unique`, `Cutting.unique` — there is one way to cut at most.
* `Cutting.flatMap_text`    — the pieces are the whole source.
-/

namespace Scriptlet

-- ---------------------------------------------------------------------------
-- Pieces
-- ---------------------------------------------------------------------------

/-- A piece of source text. -/
inductive Piece where
  | token (kind : TokenKind) (text : List Char) (value : Value)
  | blank (c : Char)
  /-- A comment, by what follows its two slashes. -/
  | comment (body : List Char)
  /-- A character that starts nothing. -/
  | stray (c : Char)
  /-- A string that is not closed, by what follows its quote. -/
  | unclosed (body : List Char)

/-- The characters of a piece. -/
def Piece.text : Piece → List Char
  | token _ text _ => text
  | blank c => [c]
  | comment body => '/' :: '/' :: body
  | stray c => [c]
  | unclosed body => '"' :: body

/-- No token that starts where `text` starts is longer. -/
def Longest (text rest : List Char) : Prop :=
  ∀ {other : List Char} {kind : TokenKind} {value : Value}, other <+: text ++ rest →
    TokenRule other kind value → other.length ≤ text.length

/-- The piece is what has to be cut off in front of `rest`. -/
inductive Cut : Piece → List Char → Prop where
  | token {kind : TokenKind} {text rest : List Char} {value : Value}
      (hRule : TokenRule text kind value) (hLongest : Longest text rest)
      (hComment : ¬['/', '/'] <+: text ++ rest) : Cut (.token kind text value) rest
  | blank {c : Char} {rest : List Char} (h : c ∈ [' ', '\r', '\t', '\n']) : Cut (.blank c) rest
  /-- The end of the line is no part of a comment. -/
  | comment {body rest : List Char} (hBody : ∀ c ∈ body, c ≠ '\n')
      (hEnd : rest = [] ∨ ∃ more, rest = '\n' :: more) : Cut (.comment body) rest
  | stray {c : Char} {rest : List Char} (hBlank : c ∉ [' ', '\r', '\t', '\n'])
      (hNone : ∀ cs kind value, ¬TokenRule (c :: cs) kind value) : Cut (.stray c) rest
  | unclosed {body : List Char} (hBody : ∀ c ∈ body, c ≠ '"') : Cut (.unclosed body) []

/-- A source and its pieces, one after the other. -/
inductive Cutting : List Char → List Piece → Prop where
  | nil : Cutting [] []
  | cons {piece : Piece} {rest : List Char} {pieces : List Piece} :
      Cut piece rest → Cutting rest pieces → Cutting (piece.text ++ rest) (piece :: pieces)

-- ---------------------------------------------------------------------------
-- What is cut off where
-- ---------------------------------------------------------------------------

theorem isLayout_iff {c : Char} : isLayout c = true ↔ c ∈ [' ', '\r', '\t', '\n'] := by
  simp [isLayout, or_assoc]

theorem tokenRule_slash : TokenRule ['/'] .slash .nil := .fixed (by simp [fixedTokens])

theorem tokenRule_quotes : TokenRule ['"', '"'] .string (.text (String.ofList [])) :=
  @TokenRule.string [] (by simp)

/-- A token has a first character, which is neither blank nor without a rule. -/
theorem exists_first_of_token {text rest all : List Char} {kind : TokenKind} {value : Value}
    {c : Char} (hRule : TokenRule text kind value) (hText : text ++ rest = c :: all) :
    ∃ cs, text = c :: cs ∧ cs ++ rest = all := by
  cases text with
  | nil => exact absurd rfl (tokenRule_ne_nil hRule)
  | cons d cs =>
    obtain ⟨hFirst, hRest⟩ := List.cons.inj hText
    rw [hFirst]
    exact ⟨cs, rfl, hRest⟩

section

variable {piece : Piece} {rest : List Char}

/-- In front of a blank only the blank can be cut off. -/
theorem Cut.eq_blank {c : Char} {all : List Char} (h : Cut piece rest)
    (hText : piece.text ++ rest = c :: all) (hBlank : c ∈ [' ', '\r', '\t', '\n']) :
    piece = .blank c := by
  cases h with
  | token hRule hLongest hComment =>
    obtain ⟨cs, hFirst, -⟩ := exists_first_of_token hRule hText
    rw [hFirst] at hRule
    exact absurd hRule (not_tokenRule_layout (isLayout_iff.mpr hBlank))
  | blank hHere =>
    obtain ⟨hFirst, -⟩ := List.cons.inj hText
    rw [hFirst]
  | comment hBody hEnd =>
    obtain ⟨hFirst, -⟩ := List.cons.inj hText
    rw [← hFirst] at hBlank
    exact absurd hBlank (by decide)
  | stray hNot hNone =>
    obtain ⟨hFirst, -⟩ := List.cons.inj hText
    rw [hFirst] at hNot
    exact absurd hBlank hNot
  | unclosed hBody =>
    obtain ⟨hFirst, -⟩ := List.cons.inj hText
    rw [← hFirst] at hBlank
    exact absurd hBlank (by decide)

/-- In front of two slashes only a comment can be cut off. -/
theorem Cut.eq_comment {all : List Char} (h : Cut piece rest)
    (hText : piece.text ++ rest = '/' :: '/' :: all) : ∃ body, piece = .comment body := by
  cases h with
  | token hRule hLongest hComment =>
    refine absurd ?_ hComment
    exact ⟨all, hText.symm⟩
  | blank hHere =>
    obtain ⟨hFirst, -⟩ := List.cons.inj hText
    rw [hFirst] at hHere
    exact absurd hHere (by decide)
  | comment hBody hEnd => exact ⟨_, rfl⟩
  | stray hNot hNone =>
    obtain ⟨hFirst, -⟩ := List.cons.inj hText
    rw [hFirst] at hNone
    exact absurd tokenRule_slash (hNone _ _ _)
  | unclosed hBody =>
    obtain ⟨hFirst, -⟩ := List.cons.inj hText
    exact absurd hFirst (by decide)

/-- In front of a quote that no other follows only the string without an end can be cut off. -/
theorem Cut.eq_unclosed {all : List Char} (h : Cut piece rest)
    (hText : piece.text ++ rest = '"' :: all) (hAll : ∀ c ∈ all, c ≠ '"') :
    piece = .unclosed all ∧ rest = [] := by
  cases h with
  | token hRule hLongest hComment =>
    obtain ⟨cs, hFirst, hRest⟩ := exists_first_of_token hRule hText
    rw [hFirst] at hRule
    obtain ⟨⟨body, hBody, -⟩, -⟩ := tokenRule_quote hRule
    have hQuote : '"' ∈ all := by
      rw [← hRest, hBody]
      simp
    exact absurd rfl (hAll _ hQuote)
  | blank hHere =>
    obtain ⟨hFirst, -⟩ := List.cons.inj hText
    rw [hFirst] at hHere
    exact absurd hHere (by decide)
  | comment hBody hEnd =>
    obtain ⟨hFirst, -⟩ := List.cons.inj hText
    exact absurd hFirst (by decide)
  | stray hNot hNone =>
    obtain ⟨hFirst, -⟩ := List.cons.inj hText
    rw [hFirst] at hNone
    exact absurd tokenRule_quotes (hNone _ _ _)
  | unclosed hBody =>
    rw [List.append_nil] at hText
    obtain ⟨-, hBodies⟩ := List.cons.inj hText
    rw [hBodies]
    exact ⟨rfl, rfl⟩

/-- In front of a character that starts nothing only that character can be cut off. -/
theorem Cut.eq_stray {c : Char} {all : List Char} (h : Cut piece rest)
    (hText : piece.text ++ rest = c :: all) (hBlank : c ∉ [' ', '\r', '\t', '\n'])
    (hNone : ∀ cs kind value, ¬TokenRule (c :: cs) kind value) : piece = .stray c := by
  cases h with
  | token hRule hLongest hComment =>
    obtain ⟨cs, hFirst, -⟩ := exists_first_of_token hRule hText
    rw [hFirst] at hRule
    exact absurd hRule (hNone _ _ _)
  | blank hHere =>
    obtain ⟨hFirst, -⟩ := List.cons.inj hText
    rw [hFirst] at hHere
    exact absurd hHere hBlank
  | comment hBody hEnd =>
    obtain ⟨hFirst, -⟩ := List.cons.inj hText
    rw [← hFirst] at hNone
    exact absurd tokenRule_slash (hNone _ _ _)
  | stray hNot hNone' =>
    obtain ⟨hFirst, -⟩ := List.cons.inj hText
    rw [hFirst]
  | unclosed hBody =>
    obtain ⟨hFirst, -⟩ := List.cons.inj hText
    rw [← hFirst] at hNone
    exact absurd tokenRule_quotes (hNone _ _ _)

end

-- ---------------------------------------------------------------------------
-- One way to cut
-- ---------------------------------------------------------------------------

/-- Two comments on one line are the same. -/
theorem comment_body_unique {body body' rest rest' : List Char} (hBody : ∀ c ∈ body, c ≠ '\n')
    (hBody' : ∀ c ∈ body', c ≠ '\n') (hEnd : rest = [] ∨ ∃ more, rest = '\n' :: more)
    (hEnd' : rest' = [] ∨ ∃ more, rest' = '\n' :: more) (h : body ++ rest = body' ++ rest') :
    body = body' := by
  have hTake : ∀ {cs more : List Char}, (∀ c ∈ cs, c ≠ '\n') →
      (more = [] ∨ ∃ after, more = '\n' :: after) → (cs ++ more).takeWhile (· != '\n') = cs := by
    intro cs more hcs hMore
    have hStop : more.takeWhile (· != '\n') = [] := by
      rcases hMore with hNil | ⟨after, hLine⟩
      · rw [hNil]
        rfl
      · rw [hLine]
        rfl
    rw [List.takeWhile_append_of_pos (by simpa using hcs), hStop, List.append_nil]
  rw [← hTake hBody hEnd, h, hTake hBody' hEnd']

/-- Two longest tokens at one place are the same. -/
theorem token_text_unique {text text' rest rest' : List Char} {kind kind' : TokenKind}
    {value value' : Value} (hRule : TokenRule text kind value)
    (hRule' : TokenRule text' kind' value') (hLongest : Longest text rest)
    (hLongest' : Longest text' rest') (h : text ++ rest = text' ++ rest') : text = text' := by
  have hLess : text'.length ≤ text.length := by
    refine hLongest ?_ hRule'
    rw [h]
    exact List.prefix_append text' rest'
  have hMore : text.length ≤ text'.length := by
    refine hLongest' ?_ hRule
    rw [← h]
    exact List.prefix_append text rest
  exact List.append_inj_left h (Nat.le_antisymm hMore hLess)

theorem Cut.piece_unique {piece piece' : Piece} {rest rest' : List Char} (h : Cut piece rest)
    (h' : Cut piece' rest') (hText : piece.text ++ rest = piece'.text ++ rest') :
    piece = piece' := by
  cases h with
  | blank hBlank => exact (h'.eq_blank hText.symm hBlank).symm
  | stray hBlank hNone => exact (h'.eq_stray hText.symm hBlank hNone).symm
  | unclosed hBody =>
    rw [List.append_nil] at hText
    exact (h'.eq_unclosed hText.symm hBody).1.symm
  | comment hBody hEnd =>
    obtain ⟨body', hPiece⟩ := h'.eq_comment hText.symm
    subst hPiece
    cases h' with
    | comment hBody' hEnd' =>
      have hSame := (List.cons.inj (List.cons.inj hText).2).2
      rw [comment_body_unique hBody hBody' hEnd hEnd' hSame]
  | @token kind text rest value hRule hLongest hComment =>
    -- every other kind of piece would have to be cut off on both sides
    cases h' with
    | token hRule' hLongest' hComment' =>
      have hSame := token_text_unique hRule hRule' hLongest hLongest' hText
      subst hSame
      obtain ⟨hKind, hValue⟩ := tokenRule_unique hRule hRule'
      rw [hKind, hValue]
    | blank hBlank => exact (Cut.token hRule hLongest hComment).eq_blank hText hBlank
    | stray hBlank hNone =>
      exact (Cut.token hRule hLongest hComment).eq_stray hText hBlank hNone
    | unclosed hBody =>
      rw [List.append_nil] at hText
      exact ((Cut.token hRule hLongest hComment).eq_unclosed hText hBody).1
    | comment hBody hEnd =>
      obtain ⟨body, hPiece⟩ := (Cut.token hRule hLongest hComment).eq_comment hText
      cases hPiece

theorem Cut.text_ne_nil {piece : Piece} {rest : List Char} (h : Cut piece rest) :
    piece.text ≠ [] := by
  cases h with
  | token hRule hLongest hComment => exact tokenRule_ne_nil hRule
  | blank hBlank => exact List.cons_ne_nil _ _
  | comment hBody hEnd => exact List.cons_ne_nil _ _
  | stray hBlank hNone => exact List.cons_ne_nil _ _
  | unclosed hBody => exact List.cons_ne_nil _ _

/-- A source is cut in at most one way. -/
theorem Cutting.unique {source : List Char} {pieces pieces' : List Piece}
    (h : Cutting source pieces) (h' : Cutting source pieces') : pieces = pieces' := by
  induction h generalizing pieces' with
  | nil =>
    generalize hSource : ([] : List Char) = source at h'
    cases h' with
    | nil => rfl
    | cons hCut hRest =>
      have hNil := (List.append_eq_nil_iff.mp hSource.symm).1
      exact absurd hNil hCut.text_ne_nil
  | @cons piece rest pieces hCut hRest ih =>
    generalize hSource : piece.text ++ rest = source at h'
    cases h' with
    | nil =>
      have hNil := (List.append_eq_nil_iff.mp hSource).1
      exact absurd hNil hCut.text_ne_nil
    | @cons piece' rest' pieces' hCut' hRest' =>
      have hPiece := hCut.piece_unique hCut' hSource
      subst hPiece
      have hTail := List.append_cancel_left hSource
      subst hTail
      rw [ih hRest']

/-- The pieces together are the source. -/
theorem Cutting.flatMap_text {source : List Char} {pieces : List Piece}
    (h : Cutting source pieces) : pieces.flatMap Piece.text = source := by
  induction h with
  | nil => rfl
  | cons hCut hRest ih => rw [List.flatMap_cons, ih]

/-- No piece is empty. -/
theorem Cutting.text_ne_nil {source : List Char} {pieces : List Piece}
    (h : Cutting source pieces) : ∀ piece ∈ pieces, piece.text ≠ [] := by
  induction h with
  | nil => simp
  | cons hCut hRest ih =>
    intro other hOther
    rcases List.mem_cons.mp hOther with hEq | hMem
    · rw [hEq]
      exact hCut.text_ne_nil
    · exact ih other hMem

end Scriptlet
