import Mathlib.Data.List.Forall2
import Scriptlet.Proofs.Lexer.Joined

/-!
# Scriptlet — tokens written out

Tokens can be written one after the other with layout between them, and the
lexer finds the same ones again. A token ends where its text ends as soon as
layout follows: no token but a string has layout in it, and a string is closed.
So it does not matter that two texts could be read as one token, or as a comment,
if they stood side by side.

## Results

* `LexedAlone`              — a text that is one token.
* `WrittenOut`, `spaced`    — texts with layout between them, and with single spaces.
* `cut_of_lexedAlone`, `lexedAlone_of_cut` — such a text is cut off as a whole.
* `cutting_of_writtenOut`   — how texts with layout between them are cut.
* `lex_undoes_writing`      — the tokens of what is written out.
-/

namespace Scriptlet

open Scriptlet.Text Scriptlet.Number

-- ---------------------------------------------------------------------------
-- Texts with layout between them
-- ---------------------------------------------------------------------------

/-- Lexed by itself, and without a remark, a text is one token, which is all of it. -/
structure LexedAlone (text : String) (t : Token) : Prop where
  lexes : ∃ last, (lex text).1 = [t, last]
  unremarked : (lex text).2 = []
  whole : t.lexeme = text

/-- Texts one after the other with layout between any two, and maybe behind the last. -/
inductive WrittenOut : List String → String → Prop where
  | nil : WrittenOut [] ""
  | cons {lexeme gap text : String} {rest : List String}
      (hGap : ∀ c ∈ gap.toList, c ∈ [' ', '\r', '\t', '\n']) (hApart : rest ≠ [] → gap ≠ "")
      (hRest : WrittenOut rest text) : WrittenOut (lexeme :: rest) (lexeme ++ gap ++ text)

/-- The texts of tokens with single spaces between them. -/
def spaced (tokens : List Token) : String := " ".intercalate (tokens.map Token.lexeme)

theorem writtenOut_intercalate (lexemes : List String) :
    WrittenOut lexemes (" ".intercalate lexemes) := by
  induction lexemes with
  | nil => exact .nil
  | cons lexeme rest ih =>
    cases rest with
    | nil =>
      have hWhole := @WrittenOut.cons lexeme "" "" [] (by simp) (by simp) .nil
      simpa using hWhole
    | cons next rest =>
      rw [String.intercalate_cons_cons]
      exact .cons (by simp) (fun _ => by decide) ih

/-- The end of the file has no text, so only one more space is written for it. -/
theorem writtenOut_intercalate_end (lexemes : List String) :
    WrittenOut lexemes (" ".intercalate (lexemes ++ [""])) := by
  induction lexemes with
  | nil => exact .nil
  | cons lexeme rest ih =>
    have hJoined : " ".intercalate ((lexeme :: rest) ++ [""]) =
        lexeme ++ " " ++ " ".intercalate (rest ++ [""]) := by
      cases rest with
      | nil => exact String.intercalate_cons_cons
      | cons next rest => exact String.intercalate_cons_cons
    rw [hJoined]
    exact .cons (by simp) (fun _ => by decide) ih

-- ---------------------------------------------------------------------------
-- Tokens by themselves
-- ---------------------------------------------------------------------------

/-- What a rule allows is cut off as a whole where nothing follows. -/
theorem cut_of_tokenRule {kind : TokenKind} {text : List Char} {value : Value}
    (hRule : TokenRule text kind value) (hComment : ¬['/', '/'] <+: text) :
    Cut (.token kind text value) [] := by
  refine .token hRule ?_ ?_
  · intro other kind' value' hPrefix _
    rw [List.append_nil] at hPrefix
    exact hPrefix.length_le
  · rwa [List.append_nil]

/-- What is a token in front of something is one by itself. -/
theorem Cut.token_alone {kind : TokenKind} {text rest : List Char} {value : Value}
    (h : Cut (.token kind text value) rest) : Cut (.token kind text value) [] := by
  cases h with
  | token hRule hLongest hComment =>
    refine cut_of_tokenRule hRule fun hPrefix => ?_
    exact hComment (hPrefix.trans (List.prefix_append text rest))

theorem mem_tokensOf {line : Int} {pieces : List Piece} {t : Token}
    (h : t ∈ tokensOf line pieces) :
    .token t.kind t.lexeme.toList t.literal ∈ pieces := by
  obtain ⟨⟨piece, line'⟩, hPlace, hToken⟩ := List.mem_filterMap.mp h
  have hPiece : piece ∈ pieces := by
    rw [← map_fst_located line pieces]
    exact List.mem_map_of_mem hPlace
  cases piece with
  | token kind text value =>
    obtain rfl := Option.some.inj hToken
    rwa [String.toList_ofList]
  | blank c => cases hToken
  | comment body => cases hToken
  | stray c => cases hToken
  | unclosed body => cases hToken

/-- Every piece of a source is cut off in front of what follows it. -/
theorem Cutting.exists_cut {source : List Char} {pieces : List Piece} {piece : Piece}
    (h : Cutting source pieces) (hMem : piece ∈ pieces) : ∃ rest, Cut piece rest := by
  induction h with
  | nil => cases hMem
  | cons hCut hRest ih =>
    rcases List.mem_cons.mp hMem with rfl | hLater
    · exact ⟨_, hCut⟩
    · exact ih hLater

/-- The tokens of a source are cut off in it, and so are they by themselves. -/
theorem cut_of_mem_lex {source : String} {t : Token} (h : t ∈ (lex source).1)
    (hEof : t.kind ≠ .eof) : Cut (.token t.kind t.lexeme.toList t.literal) [] := by
  obtain ⟨pieces, hCutting, -⟩ := exists_scanned source.toList
  rw [(lex_of_cutting hCutting).1] at h
  rcases List.mem_append.mp h with hToken | hEnd
  · obtain ⟨rest, hCut⟩ := hCutting.exists_cut (mem_tokensOf hToken)
    exact hCut.token_alone
  · rw [List.mem_singleton.mp hEnd] at hEof
    exact absurd rfl hEof

/-- A text that is cut off as a token is that token by itself. -/
theorem lexedAlone_of_cut {kind : TokenKind} {text : List Char} {value : Value}
    (h : Cut (.token kind text value) []) :
    LexedAlone (String.ofList text)
      { kind, lexeme := String.ofList text, literal := value, line := lineAfter 1 text } := by
  have hCutting : Cutting (String.ofList text).toList [.token kind text value] := by
    have hWhole := Cutting.cons h .nil
    rw [List.append_nil] at hWhole
    rw [String.toList_ofList]
    exact hWhole
  have hLexed := lexed_of_cutting hCutting rfl
  exact ⟨⟨_, hLexed.lexes⟩, hLexed.unremarked, rfl⟩

/-- A text that is one token is cut off as a whole. -/
theorem cut_of_lexedAlone {text : String} {t : Token} (h : LexedAlone text t) :
    Cut (.token t.kind text.toList t.literal) [] := by
  obtain ⟨last, hLexes⟩ := h.lexes
  have hEof : t.kind ≠ .eof := by
    obtain ⟨pieces, hCutting, -⟩ := exists_scanned text.toList
    have hTokens := (lex_of_cutting hCutting).1
    rw [hLexes] at hTokens
    have hOnly : tokensOf 1 pieces = [t] := by
      simpa using (congrArg List.dropLast hTokens).symm
    refine kind_ne_eof_of_mem_tokensOf hCutting 1 t ?_
    rw [hOnly]
    exact List.mem_singleton.mpr rfl
  have hMem : t ∈ (lex text).1 := by
    rw [hLexes]
    exact List.mem_cons_self
  have hCut := cut_of_mem_lex hMem hEof
  rwa [h.whole] at hCut

-- ---------------------------------------------------------------------------
-- Texts written out
-- ---------------------------------------------------------------------------

/-- The pieces of a text that nothing is remarked on. -/
def Piece.Plain (piece : Piece) : Prop := ∀ line, piece.remark? line = none

theorem remarksOf_eq_nil {pieces : List Piece} (h : ∀ piece ∈ pieces, piece.Plain) (line : Int) :
    remarksOf line pieces = [] := by
  refine List.filterMap_eq_nil_iff.mpr fun place hPlace => ?_
  refine h place.1 ?_ place.2
  rw [← map_fst_located line pieces]
  exact List.mem_map_of_mem hPlace

/-- Where pieces stand makes no difference to their tokens but in the lines. -/
theorem map_withoutLine_tokensOf (line : Int) (pieces : List Piece) :
    (tokensOf line pieces).map Token.withoutLine = pieces.filterMap (Piece.token? 0) := by
  induction pieces generalizing line with
  | nil => rfl
  | cons piece rest ih =>
    rw [tokensOf_cons, List.map_append, ih, List.filterMap_cons]
    cases piece <;> rfl

/-- Layout is cut into blanks, which are no tokens. -/
theorem Cutting.behind_layout {text : List Char} {pieces : List Piece} (h : Cutting text pieces)
    {gap : List Char} (hGap : ∀ c ∈ gap, c ∈ [' ', '\r', '\t', '\n']) :
    Cutting (gap ++ text) (gap.map Piece.blank ++ pieces) := by
  induction gap with
  | nil => exact h
  | cons c gap ih =>
    obtain ⟨hFirst, hRest⟩ := List.forall_mem_cons.mp hGap
    exact .cons (.blank hFirst) (ih hRest)

/-- A token ends in front of layout, and at the end. -/
theorem Cut.token_before_gap {kind : TokenKind} {lexeme gap text : List Char} {value : Value}
    (h : Cut (.token kind lexeme value) []) (hGap : ∀ c ∈ gap, c ∈ [' ', '\r', '\t', '\n'])
    (hEnd : gap = [] → text = []) : Cut (.token kind lexeme value) (gap ++ text) := by
  cases gap with
  | nil =>
    rw [hEnd rfl]
    exact h
  | cons c gap =>
    have hLayout := isLayout_iff.mpr (hGap c List.mem_cons_self)
    exact h.token_before_layout hLayout (gap ++ text)

/-- Texts that are tokens by themselves are cut as such when they are written out. -/
theorem cutting_of_writtenOut {lexemes : List String} {tokens : List Token} {text : String}
    (hAlone : List.Forall₂ LexedAlone lexemes tokens) (hText : WrittenOut lexemes text) :
    ∃ pieces, Cutting text.toList pieces ∧ (∀ piece ∈ pieces, piece.Plain) ∧
      pieces.filterMap (Piece.token? 0) = tokens.map Token.withoutLine := by
  induction hText generalizing tokens with
  | nil =>
    cases hAlone
    exact ⟨[], .nil, by simp, rfl⟩
  | @cons lexeme gap text rest hGap hApart hRest ih =>
    cases hAlone with
    | @cons _ t _ tokens hFirst hOthers =>
      obtain ⟨pieces, hCutting, hPlain, hTokens⟩ := ih hOthers
      have hEnd : gap.toList = [] → text.toList = [] := by
        intro hNone
        cases hRest with
        | nil => rfl
        | cons => exact absurd (String.toList_eq_nil_iff.mp hNone) (hApart (List.cons_ne_nil _ _))
      have hCut := (cut_of_lexedAlone hFirst).token_before_gap hGap hEnd
      refine ⟨.token t.kind lexeme.toList t.literal :: (gap.toList.map Piece.blank ++ pieces),
        ?_, ?_, ?_⟩
      · rw [String.toList_append, String.toList_append, List.append_assoc]
        exact .cons hCut (hCutting.behind_layout hGap)
      · intro piece hPiece
        rcases List.mem_cons.mp hPiece with rfl | hLater
        · exact fun _ => rfl
        · rcases List.mem_append.mp hLater with hBlank | hLater
          · obtain ⟨c, -, rfl⟩ := List.mem_map.mp hBlank
            exact fun _ => rfl
          · exact hPlain piece hLater
      · have hToken : Piece.token? 0 (.token t.kind lexeme.toList t.literal) =
            some t.withoutLine := by
          rw [Piece.token?, String.ofList_toList, ← hFirst.whole]
          rfl
        have hBlanks : (gap.toList.map Piece.blank).filterMap (Piece.token? 0) = [] := by
          simp [List.filterMap_map, Function.comp_def, Piece.token?]
        rw [List.filterMap_cons_some hToken, List.filterMap_append, hBlanks, List.nil_append,
          hTokens, List.map_cons]

/-- The lexer finds the tokens of texts that are written out, without a remark. -/
theorem lex_of_writtenOut {lexemes : List String} {tokens : List Token} {text : String}
    (hAlone : List.Forall₂ LexedAlone lexemes tokens) (hText : WrittenOut lexemes text) :
    (lex text).2 = [] ∧ (lex text).1.map Token.withoutLine =
      tokens.map Token.withoutLine ++ [Token.endOfFile 0] := by
  obtain ⟨pieces, hCutting, hPlain, hPieces⟩ := cutting_of_writtenOut hAlone hText
  obtain ⟨hTokens, hShown⟩ := lex_of_cutting hCutting
  rw [remarksOf_eq_nil hPlain 1, List.map_eq_nil_iff] at hShown
  refine ⟨hShown, ?_⟩
  rw [hTokens, List.map_append, map_withoutLine_tokensOf, hPieces]
  rfl

/-- The tokens of a source but for the end of the file, each of which is a token by itself. -/
theorem exists_alone_of_lex (source : String) :
    ∃ front last, (lex source).1 = front ++ [Token.endOfFile last] ∧
      List.Forall₂ LexedAlone (front.map Token.lexeme)
        (front.map fun t => { t with line := lineAfter 1 t.lexeme.toList }) := by
  obtain ⟨pieces, hCutting, -⟩ := exists_scanned source.toList
  have hTokens := (lex_of_cutting hCutting).1
  refine ⟨_, _, hTokens, ?_⟩
  rw [List.forall₂_map_left_iff, List.forall₂_map_right_iff, List.forall₂_same]
  intro t ht
  have hMem : t ∈ (lex source).1 := by
    rw [hTokens]
    exact List.mem_append_left _ ht
  have hCut := cut_of_mem_lex hMem (kind_ne_eof_of_mem_tokensOf hCutting 1 t ht)
  have hAlone := lexedAlone_of_cut hCut
  rwa [String.ofList_toList] at hAlone

/--
Lexing undoes writing tokens out. Texts each of which is one token by itself can be
written out with any layout between them: nothing is remarked on, and up to their
lines the tokens are those of the texts, with the end of the file behind them. So
the tokens of any source are found again in what is written out of them with
single spaces, with or without the empty text of the end of the file.
-/
theorem lex_undoes_writing :
    (∀ {lexemes : List String} {tokens : List Token} {text : String},
      List.Forall₂ LexedAlone lexemes tokens → WrittenOut lexemes text →
        (lex text).2 = [] ∧ (lex text).1.map Token.withoutLine =
          tokens.map Token.withoutLine ++ [Token.endOfFile 0]) ∧
      ∀ source : String,
        ∀ written ∈ [spaced (lex source).1, spaced (lex source).1.dropLast],
          (lex written).2 = [] ∧
            (lex written).1.map Token.withoutLine = (lex source).1.map Token.withoutLine := by
  refine ⟨lex_of_writtenOut, ?_⟩
  intro source written hWritten
  obtain ⟨front, last, hTokens, hAlone⟩ := exists_alone_of_lex source
  have hText : WrittenOut (front.map Token.lexeme) written := by
    rw [hTokens, List.dropLast_concat] at hWritten
    rcases List.mem_pair.mp hWritten with rfl | rfl
    · rw [spaced, List.map_append]
      exact writtenOut_intercalate_end _
    · exact writtenOut_intercalate _
  obtain ⟨hRemarks, hAgain⟩ := lex_of_writtenOut hAlone hText
  refine ⟨hRemarks, ?_⟩
  rw [hAgain, hTokens, List.map_append, List.map_map]
  rfl

/--
Two slashes that are no comment, a point between digits that is no part of a
number, a string over two lines with slashes in it, and a keyword.
-/
theorem lex_undoes_writing_apart :
    let lexemes := ["/", "/", "1", ".", "5", "\"a\n//b\"", "or"]
    let digit (c : Char) : Token :=
      { kind := .number, lexeme := String.ofList [c],
        literal := .number (Numeral.plain [c]).value, line := 1 }
    let slash : Token := { kind := .slash, lexeme := "/", line := 1 }
    let string : Token :=
      { kind := .string, lexeme := "\"a\n//b\"", literal := .text "a\n//b", line := 2 }
    let tokens : List Token :=
      [slash, slash, digit '1', { kind := .dot, lexeme := ".", line := 1 }, digit '5', string,
        { kind := .orKw, lexeme := "or", line := 1 }]
    let text := "/" ++ " " ++ ("/" ++ "\n\t" ++ ("1" ++ "\r" ++ ("." ++ " " ++ ("5" ++ "\n" ++
      ("\"a\n//b\"" ++ " " ++ ("or" ++ "" ++ ""))))))
    List.Forall₂ LexedAlone lexemes tokens ∧ WrittenOut lexemes text ∧ (lex text).2 = [] ∧
      (lex text).1.map Token.withoutLine =
        tokens.map Token.withoutLine ++ [Token.endOfFile 0] := by
  intro lexemes digit slash string tokens text
  have hRule {kind : TokenKind} {cs : List Char} {value : Value} (h : TokenRule cs kind value)
      (hComment : ¬['/', '/'] <+: cs) : LexedAlone (String.ofList cs)
        { kind, lexeme := String.ofList cs, literal := value, line := lineAfter 1 cs } :=
    lexedAlone_of_cut (cut_of_tokenRule h hComment)
  have hSlash : LexedAlone "/" slash := hRule (.fixed (by decide)) (by decide)
  have hDigit (c : Char) (hc : isDigit c) (hComment : ¬['/', '/'] <+: [c]) :
      LexedAlone (String.ofList [c]) { digit c with line := lineAfter 1 [c] } :=
    hRule (.whole hc (by simp)) hComment
  have hString : LexedAlone "\"a\n//b\"" string :=
    hRule (@TokenRule.string ['a', '\n', '/', '/', 'b'] (by simp)) (by decide)
  have hOr : LexedAlone "or" { kind := .orKw, lexeme := "or", line := 1 } :=
    hRule (.keyword rfl (List.forall_mem_singleton.mpr rfl) (by decide)) (by decide)
  have hAlone : List.Forall₂ LexedAlone lexemes tokens :=
    .cons hSlash (.cons hSlash (.cons (hDigit '1' rfl (by decide))
      (.cons (hRule (.fixed (by decide)) (by decide)) (.cons (hDigit '5' rfl (by decide))
        (.cons hString (.cons hOr .nil))))))
  have hText : WrittenOut lexemes text := by
    refine .cons ?_ ?_ (.cons ?_ ?_ (.cons ?_ ?_ (.cons ?_ ?_ (.cons ?_ ?_ (.cons ?_ ?_
      (.cons ?_ ?_ .nil))))))
    all_goals simp
  exact ⟨hAlone, hText, lex_undoes_writing.1 hAlone hText⟩

end Scriptlet
