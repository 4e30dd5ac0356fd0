import Scriptlet.Proofs.Lexer.WrittenOut
import Scriptlet.Proofs.Session.Layout
import Scriptlet.Proofs.Session.Places
import Scriptlet.Proofs.Tree.DumpReader

/-!
# Scriptlet — dumps are unambiguous

The tokens of a source are spelled in one way for every kind, and a number is
shown by a text that no other number is shown by. So as long as a source has no
strings, its dumps can be read back, and nothing but the lines of its tokens is
lost. A string can be shown by any text, also by one that looks like a dump.

## Results

* `knownFromDump_of_mem_lex` — the tokens of a source.
* `map_ofDump_statementsIn` — the dumps of a source without strings read back.
* `dumps_eq_iff`            — equal dumps are dumps of the same statements.
-/

namespace Scriptlet

open Scriptlet.Text Scriptlet.Number

-- ---------------------------------------------------------------------------
-- Tokens
-- ---------------------------------------------------------------------------

theorem isWord_of_mem_operators {entry : String × TokenKind} (h : entry ∈ operators) :
    IsWord entry.1 ∧ operators.lookup entry.1 = some entry.2 := by
  have hAll : ∀ entry ∈ operators, entry.1 ≠ "" ∧ entry.1 ≠ "var" ∧
      (entry.1.toList.all fun c => !([' ', '(', ')'].contains c)) = true ∧
      operators.lookup entry.1 = some entry.2 := by decide +kernel
  obtain ⟨hSome, hVar, hPlain, hLookup⟩ := hAll entry h
  refine ⟨⟨hSome, hVar, ?_⟩, hLookup⟩
  simpa using hPlain

/-- A character of words and numerals is no space and no parenthesis. -/
theorem not_mem_marks {c : Char}
    (h : isWordChar c = true ∨ c ∈ ['.', 'e', 'E', '+', '-', 'i', 'n', 'f']) :
    c ∉ [' ', '(', ')'] := by
  intro hMark
  simp only [List.mem_cons, List.not_mem_nil, or_false] at hMark
  rcases hMark with rfl | rfl | rfl
  all_goals exact absurd h (by decide)

variable {text : List Char} {kind : TokenKind} {value : Value}

/-- The operators of a source are spelled as the table has it. -/
theorem mem_operators_of_tokenRule (h : TokenRule text kind value) (hKind : kind ∈ operatorKinds) :
    (String.ofList text, kind) ∈ operators ∧ value = .nil := by
  have hNoNumber : TokenKind.number ∉ operatorKinds := by decide
  have hNoString : TokenKind.string ∉ operatorKinds := by decide
  have hNoName : TokenKind.identifier ∉ operatorKinds := by decide
  have hFilter {entry : String × TokenKind}
      (hEntry : entry ∈ fixedTokens.map (fun entry => (String.ofList entry.1, entry.2)) ++ keywords)
      (hOperator : entry.2 ∈ operatorKinds) : entry ∈ operators :=
    List.mem_filter.mpr ⟨hEntry, List.contains_iff_mem.mpr hOperator⟩
  cases h with
  | fixed hFixed =>
    exact ⟨hFilter (List.mem_append_left _ (List.mem_map_of_mem hFixed)) hKind, rfl⟩
  | keyword hFirst hWord hKeyword => exact ⟨hFilter (List.mem_append_right _ hKeyword) hKind, rfl⟩
  | whole hFirst hDigits => exact absurd hKind hNoNumber
  | decimal hFirst hDigits hSecond hFraction => exact absurd hKind hNoNumber
  | string hBody => exact absurd hKind hNoString
  | identifier hFirst hWord hNone => exact absurd hKind hNoName

/-- An identifier is a word, and no keyword. -/
theorem isWord_of_tokenRule (h : TokenRule text .identifier value) :
    IsWord (String.ofList text) ∧ value = .nil := by
  generalize hKind : TokenKind.identifier = kind at h
  cases h with
  | fixed hFixed =>
    rw [← hKind] at hFixed
    exact absurd hFixed (by simp [fixedTokens])
  | keyword hFirst hWord hKeyword =>
    rw [← hKind] at hKeyword
    exact absurd hKeyword (by simp [keywords])
  | whole hFirst hDigits => cases hKind
  | decimal hFirst hDigits hSecond hFraction => cases hKind
  | string hBody => cases hKind
  | @identifier c cs hFirst hWord hNone =>
    refine ⟨⟨?_, ?_, ?_⟩, rfl⟩
    · simp
    · intro hVar
      refine hNone .varKw ?_
      rw [hVar]
      decide
    · rw [String.toList_ofList]
      intro d hd
      refine not_mem_marks (.inl ?_)
      rcases List.mem_cons.mp hd with rfl | hRest
      · rw [isWordChar, hFirst, Bool.true_or]
      · exact hWord d hRest

/-- A number that is not NaN is known from what is shown of it. -/
theorem knownFromShown_number {x : Float} (h : magnitude x ≤ infinityBits) :
    (Value.number x).KnownFromShown := by
  obtain ⟨hMem, c, rest, hText, hFirst⟩ := mem_numberText h
  have hOther {word : String} {d : Char} {more : List Char} (hWord : word.toList = d :: more)
      (hNone : isDigit d = false ∧ d ≠ '-' ∧ d ≠ 'i') : numberText x ≠ word := by
    intro hSame
    rw [hSame, hWord] at hText
    obtain ⟨rfl, -⟩ := List.cons.inj hText
    rcases hFirst with hDigit | hMinus | hInf
    · rw [hNone.1] at hDigit
      cases hDigit
    · exact hNone.2.1 hMinus
    · exact hNone.2.2 hInf
  have hSome : numberText x ≠ "" := by
    intro hNil
    rw [hNil] at hText
    cases hText
  refine ⟨⟨hSome, hOther rfl (by decide), ?_⟩, ?_⟩
  · intro d hd
    refine not_mem_marks ((hMem d hd).imp_left fun hDigit => ?_)
    rw [isWordChar, hDigit, Bool.or_true]
  · show Value.ofShown (numberText x) = .number x
    unfold Value.ofShown
    rw [if_neg (hOther rfl (by decide)), if_neg (hOther rfl (by decide)),
      if_neg (hOther rfl (by decide)), shownNumber?_numberText h]
    rfl

theorem knownFromDump_of_tokenRule {t : Token} (h : TokenRule t.lexeme.toList t.kind t.literal)
    (hNoString : t.kind ≠ .string) : t.KnownFromDump where
  operator hKind := by
    obtain ⟨hMem, hLiteral⟩ := mem_operators_of_tokenRule h hKind
    rw [String.ofList_toList] at hMem
    obtain ⟨hWord, hLookup⟩ := isWord_of_mem_operators hMem
    refine ⟨hWord, ?_⟩
    rw [operator?, hLookup, Token.withoutLine, hLiteral]
    rfl
  name hKind := by
    rw [hKind] at h
    obtain ⟨hWord, hLiteral⟩ := isWord_of_tokenRule h
    rw [String.ofList_toList] at hWord
    refine ⟨hWord, ?_⟩
    rw [nameToken, Token.withoutLine, hLiteral, hKind]
  literal hKind := by
    have hNumber : t.kind = .number := hKind.resolve_right hNoString
    have hValue := value_eq h
    rw [if_pos hNumber, Numeral.value_plain] at hValue
    rw [hValue]
    have hFinite := nearest_le_infinityBits (Numeral.plain t.lexeme.toList).significand
      (Nat.pow 10 (Numeral.plain t.lexeme.toList).fraction.length)
    refine knownFromShown_number ?_
    rwa [magnitude_ofMagnitude false hFinite]

/-- The tokens of a source, all but strings, are known from dumps. -/
theorem knownFromDump_of_mem_lex {source : String} {t : Token} (ht : t ∈ (lex source).1)
    (hNoString : t.kind ≠ .string) : t.KnownFromDump := by
  by_cases hEof : t.kind = .eof
  · constructor
    · rw [hEof]
      exact fun hKind => absurd hKind (by decide)
    · rw [hEof]
      exact fun hKind => absurd hKind (by decide)
    · rw [hEof]
      exact fun hKind => absurd hKind (by decide)
  · cases cut_of_mem_lex ht hEof with
    | token hRule hLongest hComment => exact knownFromDump_of_tokenRule hRule hNoString

-- ---------------------------------------------------------------------------
-- Sources
-- ---------------------------------------------------------------------------

/-- The same value, and it is known from what is shown of it. -/
def Value.SameKnown (v w : Value) : Prop := v = w ∧ v.KnownFromShown

theorem readAlike_known :
    Parse.ReadAlike (Token.Having Token.KnownFromDump) Value.SameKnown where
  kind := by
    rintro t _ ⟨rfl, -⟩
    rfl
  literal := by
    rintro t _ ⟨rfl, hKnown⟩ hKind
    exact ⟨rfl, hKnown.literal hKind⟩
  bool b := by
    refine ⟨rfl, ?_, ?_⟩
    · cases b <;> exact ⟨by decide, by decide, by simp [Value.shown]⟩
    · cases b <;> rfl
  nil := ⟨rfl, ⟨by decide, by decide, by simp [Value.shown]⟩, rfl⟩

/-- The dumps of a source without strings read back. -/
theorem map_ofDump_statementsIn {source : String} (h : ∀ t ∈ (lex source).1, t.kind ≠ .string) :
    ∃ dumps, Stmt.dumpAll (statementsIn source) = .ok dumps ∧
      dumps.map Stmt.ofDump =
        Stmt.mapAllTokens Token.withoutLine Token.withoutLine (statementsIn source) := by
  have hTokens : List.Forall₂ (Token.Having Token.KnownFromDump) (lex source).1 (lex source).1 :=
    List.forall₂_same.mpr fun t ht => ⟨rfl, knownFromDump_of_mem_lex ht (h t ht)⟩
  have hTrees := (Parse.like_program readAlike_known hTokens).statements
  exact hTrees.map_ofDump (fun _ _ hToken => hToken.2) (fun _ _ hValue => hValue.2)
    (Parse.allProper_program _)

/-- Lines are not shown. -/
theorem dumpAll_withoutLine (statements : List Stmt) :
    Stmt.dumpAll (Stmt.mapAllTokens Token.withoutLine Token.withoutLine statements) =
      Stmt.dumpAll statements := by
  have hLexeme : ∀ t u, Token.Becomes Token.withoutLine t u → t.lexeme = u.lexeme := by
    rintro t _ rfl
    rfl
  exact (Stmt.AllLike.dumpAll_eq hLexeme hLexeme statements (Stmt.allLike_becomes _ _ _)).symm

/--
Every source has a dump, which is one text for every statement. Two sources
without strings have the same dump exactly if their statements are the same but
for the lines of tokens, whether or not there is something to complain about in
them.
-/
theorem dumps_eq_iff {a b : String} (hA : ∀ t ∈ (lex a).1, t.kind ≠ .string)
    (hB : ∀ t ∈ (lex b).1, t.kind ≠ .string) :
    ∃ dumps dumps' : List String, Stmt.dumpAll (statementsIn a) = .ok dumps ∧
      Stmt.dumpAll (statementsIn b) = .ok dumps' ∧
      (dumps = dumps' ↔
        Stmt.mapAllTokens Token.withoutLine Token.withoutLine (statementsIn a) =
          Stmt.mapAllTokens Token.withoutLine Token.withoutLine (statementsIn b)) := by
  obtain ⟨dumps, hDumps, hRead⟩ := map_ofDump_statementsIn hA
  obtain ⟨dumps', hDumps', hRead'⟩ := map_ofDump_statementsIn hB
  refine ⟨dumps, dumps', hDumps, hDumps', ?_, ?_⟩
  · rintro rfl
    rw [← hRead, hRead']
  · intro hTrees
    have hSame : Stmt.dumpAll (statementsIn a) = Stmt.dumpAll (statementsIn b) := by
      rw [← dumpAll_withoutLine (statementsIn a), hTrees, dumpAll_withoutLine]
    rw [hDumps, hDumps'] at hSame
    exact Except.ok.inj hSame

/--
A declaration and a difference of two negations, and the same with other layout
and another spelling of the number: the minus has one operand in one place and
two in another.
-/
theorem dumps_eq_iff_laid_out :
    let a := "var x = 1.5; print -x - (-x);"
    let b := "var x=01.50;\nprint - x // whatever\n-(- x);"
    let dumps := ["(var x 1.5)", "(print (- (- var x) (group (- var x))))"]
    (∀ t ∈ (lex a).1, t.kind ≠ .string) ∧ (∀ t ∈ (lex b).1, t.kind ≠ .string) ∧
      Stmt.dumpAll (statementsIn a) = .ok dumps ∧ Stmt.dumpAll (statementsIn b) = .ok dumps ∧
      Stmt.mapAllTokens Token.withoutLine Token.withoutLine (statementsIn a) =
        Stmt.mapAllTokens Token.withoutLine Token.withoutLine (statementsIn b) := by
  intro a b dumps
  have hA : ∀ t ∈ (lex a).1, t.kind ≠ .string := by decide +kernel
  have hB : ∀ t ∈ (lex b).1, t.kind ≠ .string := by decide +kernel
  have hDumpA : Stmt.dumpAll (statementsIn a) = .ok dumps := by decide +kernel
  have hDumpB : Stmt.dumpAll (statementsIn b) = .ok dumps := by decide +kernel
  obtain ⟨here, there, hHere, hThere, hIff⟩ := dumps_eq_iff hA hB
  have hSame : here = there := by
    rw [hDumpA] at hHere
    rw [hDumpB] at hThere
    exact Except.ok.inj (hHere.symm.trans hThere)
  exact ⟨hA, hB, hDumpA, hDumpB, hIff.mp hSame⟩

/-- A string may be shown by the same text as another value. -/
example : Stmt.dumpAll (statementsIn "print \"nil\";") =
    Stmt.dumpAll (statementsIn "print nil;") := by decide +kernel

end Scriptlet
