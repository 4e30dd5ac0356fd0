import Scriptlet.Proofs.Lexer.MaximalMunch

/-!
# Scriptlet — sources joined by a line feed

No token but a string goes on over the end of a line, and a string that is
closed does not go on at all. So a line feed behind a source whose strings are
closed ends its last piece wherever that was, and a source behind the line feed
is cut as it is alone. Its tokens are the same but for their lines.

## Results

* `Token.withoutLine`, `Token.later` — a token without its line, and on a later one.
* `Cut.token_before_layout` — layout further on changes no token.
* `Cut.before_line`         — a line feed further on changes no cut.
* `Cutting.join`            — two sources and the line feed between them.
* `tokensOf_append`, `tokensOf_add` — tokens of joined pieces and on later lines.
* `remarks_eq_of_shown`     — remarks about characters are known by what is shown of them.
* `lex_join`                — the tokens of two joined sources without remarks.
* `lex_over_lines`          — the tokens and the remarks of any two joined sources.
-/

namespace Scriptlet

open Scriptlet.Text

-- ---------------------------------------------------------------------------
-- Cuts in front of layout
-- ---------------------------------------------------------------------------

/-- What lacks a character and starts a text that has it starts the text in front of it. -/
theorem prefix_of_not_mem {c : Char} {cs front back : List Char} (h : cs <+: front ++ c :: back)
    (hNot : c ∉ cs) : cs <+: front := by
  have hFront : front ++ [c] <+: front ++ c :: back :=
    ⟨back, List.append_assoc front [c] back⟩
  rcases List.prefix_or_prefix_of_prefix h hFront with hShort | hLong
  · rcases List.prefix_concat_iff.mp hShort with hWhole | hPrefix
    · rw [hWhole] at hNot
      exact absurd (by simp) hNot
    · exact hPrefix
  · exact absurd (hLong.subset (by simp)) hNot

/-- Layout is no part of words and numbers. -/
theorem isWordChar_of_isLayout {c : Char} (h : isLayout c) : isWordChar c = false := by
  have hFour : c = ' ' ∨ c = '\r' ∨ c = '\t' ∨ c = '\n' := by
    simpa [isLayout, or_assoc] using h
  rcases hFour with rfl | rfl | rfl | rfl
  all_goals decide

section

variable {c : Char} (hLayout : isLayout c)

include hLayout

theorem layout_not_mem_of_word {cs : List Char} (h : ∀ d ∈ cs, isWordChar d) : c ∉ cs := by
  intro hMem
  have hWord := h c hMem
  rw [isWordChar_of_isLayout hLayout] at hWord
  cases hWord

theorem layout_not_mem_of_numberTail {cs : List Char} (h : NumberTail cs) : c ∉ cs := by
  have hDigits : ∀ {ds : List Char}, (∀ d ∈ ds, isDigit d) → c ∉ ds := by
    intro ds hds
    refine layout_not_mem_of_word hLayout fun d hd => ?_
    rw [isWordChar, hds d hd, Bool.or_true]
  rcases h with hAll | ⟨digits, d, fraction, hText, hFirst, hSecond, hFraction⟩
  · exact hDigits hAll
  · have hPoint : c ≠ '.' := by
      rintro rfl
      exact absurd hLayout (by decide)
    have hd : c ∉ d :: fraction := hDigits (List.forall_mem_cons.mpr ⟨hSecond, hFraction⟩)
    rw [hText, List.mem_append, List.mem_cons]
    rintro (hMem | hMem | hMem)
    · exact hDigits hFirst hMem
    · exact hPoint hMem
    · exact hd hMem

/-- Strings aside, tokens have no layout in them. -/
theorem layout_not_mem_of_tokenRule {d : Char} {cs : List Char} {kind : TokenKind} {value : Value}
    (hQuote : d ≠ '"') (h : TokenRule (d :: cs) kind value) : c ∉ d :: cs := by
  have hFirst : c ≠ d := by
    rintro rfl
    exact not_tokenRule_layout hLayout h
  rcases tokenRule_cons h with hFixed | ⟨-, hTail, -⟩ | ⟨hString, -⟩ | ⟨-, hWord, -⟩
  · have hAll : ∀ entry ∈ fixedTokens, entry.1.all (!isLayout ·) := by decide
    intro hMem
    have hNot := List.all_eq_true.mp (hAll _ hFixed) c hMem
    rw [hLayout] at hNot
    cases hNot
  · exact List.not_mem_cons_of_ne_of_not_mem hFirst (layout_not_mem_of_numberTail hLayout hTail)
  · exact absurd hString hQuote
  · exact List.not_mem_cons_of_ne_of_not_mem hFirst (layout_not_mem_of_word hLayout hWord)

/-- A longest token stays the longest one: only a string could go on, and it is closed. -/
theorem Longest.before_layout {text rest : List Char} {kind : TokenKind} {value : Value}
    (hRule : TokenRule text kind value) (h : Longest text rest) (more : List Char) :
    Longest text (rest ++ c :: more) := by
  intro other kind' value' hPrefix hOther
  cases text with
  | nil => exact absurd rfl (tokenRule_ne_nil hRule)
  | cons first cs =>
    cases other with
    | nil => exact Nat.zero_le _
    | cons d ds =>
      obtain ⟨rfl, hTail⟩ := List.cons_prefix_cons.mp hPrefix
      by_cases hQuote : d = '"'
      · subst hQuote
        obtain ⟨⟨body, rfl, -⟩, -⟩ := tokenRule_quote hRule
        have hLess := length_le_of_stringTail hTail (tokenRule_quote hOther).1
        exact Nat.succ_le_succ hLess
      · rw [← List.append_assoc] at hPrefix
        have hNot := layout_not_mem_of_tokenRule hLayout hQuote hOther
        exact h (prefix_of_not_mem hPrefix hNot) hOther

/-- A token ends where it did if there is layout further on. -/
theorem Cut.token_before_layout {kind : TokenKind} {text rest : List Char} {value : Value}
    (h : Cut (.token kind text value) rest) (more : List Char) :
    Cut (.token kind text value) (rest ++ c :: more) := by
  cases h with
  | token hRule hLongest hComment =>
    refine .token hRule (hLongest.before_layout hLayout hRule more) ?_
    intro hPrefix
    rw [← List.append_assoc] at hPrefix
    have hSlashes : c ∉ ['/', '/'] := by
      intro hMem
      have hSlash : c = '/' := by simpa using hMem
      subst hSlash
      exact absurd hLayout (by decide)
    exact hComment (prefix_of_not_mem hPrefix hSlashes)

end

/-- A string that is not closed takes in whatever follows it; no other piece does. -/
theorem Cut.before_line {piece : Piece} {rest : List Char} (h : Cut piece rest)
    (hClosed : ∀ body, piece ≠ .unclosed body) (more : List Char) :
    Cut piece (rest ++ '\n' :: more) := by
  cases h with
  | token hRule hLongest hComment =>
    exact (Cut.token hRule hLongest hComment).token_before_layout rfl more
  | blank hBlank => exact .blank hBlank
  | comment hBody hEnd =>
    refine .comment hBody (.inr ?_)
    rcases hEnd with rfl | ⟨line, rfl⟩
    · exact ⟨more, rfl⟩
    · exact ⟨line ++ '\n' :: more, rfl⟩
  | stray hBlank hNone => exact .stray hBlank hNone
  | unclosed hBody => exact absurd rfl (hClosed _)

/-- Two sources are cut as each is alone, if no string runs on from one into the other. -/
theorem Cutting.join {front back : List Char} {pieces others : List Piece}
    (h : Cutting front pieces) (hClosed : ∀ body, .unclosed body ∉ pieces)
    (hBack : Cutting back others) :
    Cutting (front ++ '\n' :: back) (pieces ++ .blank '\n' :: others) := by
  induction h with
  | nil => exact .cons (.blank (by simp)) hBack
  | @cons piece rest pieces hCut hRest ih =>
    have hPiece : ∀ body, piece ≠ .unclosed body := by
      rintro body rfl
      exact hClosed body (List.mem_cons_self ..)
    have hPieces : ∀ body, .unclosed body ∉ pieces := fun body hMem =>
      hClosed body (List.mem_cons_of_mem _ hMem)
    rw [List.append_assoc]
    exact .cons (hCut.before_line hPiece back) (ih hPieces)

-- ---------------------------------------------------------------------------
-- Lines
-- ---------------------------------------------------------------------------

/-- A token without its line. -/
def Token.withoutLine (t : Token) : Token := { t with line := 0 }

/-- The token a number of lines further on. -/
def Token.later (lines : Int) (t : Token) : Token := { t with line := t.line + lines }

theorem located_append (line : Int) (pieces others : List Piece) :
    located line (pieces ++ others) =
      located line pieces ++ located (lineAfter line (pieces.flatMap Piece.text)) others := by
  induction pieces generalizing line with
  | nil =>
    have hSame : lineAfter line [] = line := by simp [lineAfter]
    rw [List.flatMap_nil, hSame]
    rfl
  | cons piece rest ih =>
    rw [List.cons_append, located, located, ih, List.flatMap_cons, lineAfter_append]
    rfl

theorem located_add (line lines : Int) (pieces : List Piece) :
    located (line + lines) pieces =
      (located line pieces).map fun place => (place.1, place.2 + lines) := by
  induction pieces generalizing line with
  | nil => rfl
  | cons piece rest ih =>
    have hLine : lineAfter (line + lines) piece.text = lineAfter line piece.text + lines := by
      unfold lineAfter
      omega
    rw [located, located, hLine, ih]
    rfl

theorem tokensOf_append (line : Int) (pieces others : List Piece) :
    tokensOf line (pieces ++ others) =
      tokensOf line pieces ++ tokensOf (lineAfter line (pieces.flatMap Piece.text)) others := by
  unfold tokensOf
  rw [located_append, List.filterMap_append]

theorem remarksOf_append (line : Int) (pieces others : List Piece) :
    remarksOf line (pieces ++ others) =
      remarksOf line pieces ++ remarksOf (lineAfter line (pieces.flatMap Piece.text)) others := by
  unfold remarksOf
  rw [located_append, List.filterMap_append]

theorem tokensOf_add (line lines : Int) (pieces : List Piece) :
    tokensOf (line + lines) pieces = (tokensOf line pieces).map (Token.later lines) := by
  unfold tokensOf
  rw [located_add, List.filterMap_map, List.map_filterMap]
  congr 1
  funext place
  show place.1.token? (place.2 + lines) = (place.1.token? place.2).map (Token.later lines)
  cases place.1 <;> rfl

theorem remarksOf_add (line lines : Int) (pieces : List Piece) :
    remarksOf (line + lines) pieces =
      (remarksOf line pieces).map fun remark => (remark.1 + lines, remark.2) := by
  unfold remarksOf
  rw [located_add, List.filterMap_map, List.map_filterMap]
  congr 1
  funext place
  show place.1.remark? (place.2 + lines) =
    (place.1.remark? place.2).map fun remark => (remark.1 + lines, remark.2)
  cases place.1 <;> rfl

theorem map_fst_located (line : Int) (pieces : List Piece) :
    (located line pieces).map Prod.fst = pieces := by
  induction pieces generalizing line with
  | nil => rfl
  | cons piece rest ih => rw [located, List.map_cons, ih]

/-- A string that is not closed is remarked on. -/
theorem unclosed_not_mem {line : Int} {pieces : List Piece}
    (h : ∀ remark ∈ remarksOf line pieces, remark.2 ≠ "Unterminated string.")
    (body : List Char) : .unclosed body ∉ pieces := by
  intro hMem
  rw [← map_fst_located line pieces] at hMem
  obtain ⟨place, hPlace, hPiece⟩ := List.mem_map.mp hMem
  have hRemark : place.1.remark? place.2 = some (place.2, "Unterminated string.") := by
    rw [hPiece]
    rfl
  exact h _ (List.mem_filterMap.mpr ⟨place, hPlace, hRemark⟩) rfl

-- ---------------------------------------------------------------------------
-- Remarks
-- ---------------------------------------------------------------------------

/-- The remark a number of lines further on. -/
def Remark.later (lines : Int) (m : Remark) : Remark := { m with line := m.line + lines }

/-- The causes that the characters of a source give; all others are about its tokens. -/
inductive Complaint.OfCharacters : Complaint → Prop where
  | unexpectedCharacter (c : Char) : OfCharacters (.unexpectedCharacter c)
  | unterminatedString : OfCharacters .unterminatedString

theorem unexpected_ne_unterminated (c : Char) :
    "Unexpected character '" ++ c.toString ++ "'." ≠ "Unterminated string." := by
  intro h
  have hLengths := congrArg String.length h
  rw [String.length_append, String.length_append, Char.toString, String.length_singleton]
    at hLengths
  exact absurd hLengths (by decide)

/-- A complaint about characters is known by its wording. -/
theorem Complaint.OfCharacters.eq_of_message {a b : Complaint} (ha : a.OfCharacters)
    (hb : b.OfCharacters) (h : a.message = b.message) : a = b := by
  cases ha with
  | unexpectedCharacter c =>
    cases hb with
    | unexpectedCharacter d =>
      have hWordings : "Unexpected character '" ++ c.toString ++ "'." =
          "Unexpected character '" ++ d.toString ++ "'." := h
      have hTexts : c.toString = d.toString :=
        (String.append_right_inj _).mp ((String.append_left_inj _).mp hWordings)
      have hChars : [c] = [d] := by simpa [Char.toString] using congrArg String.toList hTexts
      rw [List.singleton_inj.mp hChars]
    | unterminatedString => exact absurd h (unexpected_ne_unterminated c)
  | unterminatedString =>
    cases hb with
    | unexpectedCharacter d => exact absurd h.symm (unexpected_ne_unterminated d)
    | unterminatedString => rfl

theorem ofCharacters_of_remark? {slice : Slice} {line : Int} {m : Remark}
    (h : slice.remark? line = some m) : m.complaint.OfCharacters := by
  unfold Slice.remark? at h
  split at h
  · rw [← Option.some.inj h]
    exact .unexpectedCharacter _
  · rw [← Option.some.inj h]
    exact .unterminatedString
  · cases h

theorem ofCharacters_of_mem_remarks {source : String} :
    ∀ m ∈ (lex source).2, m.complaint.OfCharacters := by
  have hSteps : ∀ (pieces : List Slice) (s : Scanner),
      (∀ m ∈ s.remarks.toList, m.complaint.OfCharacters) →
        ∀ m ∈ (pieces.foldl Scanner.step s).remarks.toList, m.complaint.OfCharacters := by
    intro pieces
    induction pieces with
    | nil => exact fun s h => h
    | cons slice rest ih =>
      intro s h
      refine ih (s.step slice) fun m hm => ?_
      have hSplit : m ∈ (s.remarks ++
          (slice.remark? (lineAfter s.line slice.text)).toArray).toList := hm
      rw [Array.toList_append, Option.toList_toArray, List.mem_append] at hSplit
      rcases hSplit with hOld | hNew
      · exact h m hOld
      · exact ofCharacters_of_remark? (Option.mem_toList.mp hNew)
  exact hSteps (slices source.toList) (Scanner.ofSource source) fun m hm => by cases hm

/-- Remarks about characters that are shown alike are the same. -/
theorem remarks_eq_of_shown {remarks others : List Remark}
    (h : ∀ m ∈ remarks, m.complaint.OfCharacters) (hOthers : ∀ m ∈ others, m.complaint.OfCharacters)
    (hShown : remarks.map Remark.shown = others.map Remark.shown) : remarks = others := by
  induction remarks generalizing others with
  | nil => exact (List.map_eq_nil_iff.mp hShown.symm).symm
  | cons m rest ih =>
    cases others with
    | nil => cases hShown
    | cons n rest' =>
      obtain ⟨hFirst, hRest⟩ := List.cons.inj hShown
      obtain ⟨hLine, hMessage⟩ := Prod.mk.inj hFirst
      have hCause := (h m (List.mem_cons_self ..)).eq_of_message
        (hOthers n (List.mem_cons_self ..)) hMessage
      have hSame : m = n := by
        cases m
        cases n
        cases hLine
        cases hCause
        rfl
      rw [hSame, ih (fun k hk => h k (List.mem_cons_of_mem _ hk))
        (fun k hk => hOthers k (List.mem_cons_of_mem _ hk)) hRest]

-- ---------------------------------------------------------------------------
-- Whole sources
-- ---------------------------------------------------------------------------

/-- The lexer finds what a source is cut into. -/
theorem lex_of_cutting {source : String} {pieces : List Piece}
    (h : Cutting source.toList pieces) :
    (lex source).1 = tokensOf 1 pieces ++ [Token.endOfFile (lineAfter 1 source.toList)] ∧
      (lex source).2.map Remark.shown = remarksOf 1 pieces := by
  obtain ⟨others, hCutting, hScanned⟩ := exists_scanned source.toList
  obtain rfl := h.unique hCutting
  obtain ⟨hTokens, hRemarks, hLine⟩ := hScanned (Scanner.ofSource source)
  rw [h.flatMap_text] at hLine
  refine ⟨?_, hRemarks⟩
  generalize hDone : (slices source.toList).foldl Scanner.step (Scanner.ofSource source) = done
    at hTokens hLine
  have hLex : (Scanner.ofSource source).lex = done.emit (some (.endOfFile done.line)) := by
    rw [← hDone]
    rfl
  show (Scanner.ofSource source).lex.tokens.toList = _
  rw [hLex, hLine]
  show (done.tokens ++ (some (Token.endOfFile _)).toArray).toList = _
  rw [Array.toList_append, hTokens, Option.toList_toArray]
  rfl

/-- A source and its tokens in front of the end of the file, if nothing is remarked on. -/
structure Lexed (source : String) (tokens : List Token) : Prop where
  lexes : (lex source).1 = tokens ++ [Token.endOfFile (lineAfter 1 source.toList)]
  unremarked : (lex source).2 = []
  noEnd : ∀ t ∈ tokens, t.kind ≠ .eof

theorem lexed_of_cutting {source : String} {pieces : List Piece}
    (h : Cutting source.toList pieces) (hRemarks : remarksOf 1 pieces = []) :
    Lexed source (tokensOf 1 pieces) := by
  obtain ⟨hTokens, hShown⟩ := lex_of_cutting h
  rw [hRemarks, List.map_eq_nil_iff] at hShown
  exact ⟨hTokens, hShown, kind_ne_eof_of_mem_tokensOf h 1⟩

/-- The number of lines that a source and a line feed behind it take. -/
def linesOf (source : String) : Int := 1 + (source.toList.count '\n' : Nat)

section

variable {a b : String} {pieces others : List Piece}

/-- Two sources and the line feed between them are cut as each of the sources is. -/
theorem Cutting.join_sources (hA : Cutting a.toList pieces)
    (hClosed : ∀ body, .unclosed body ∉ pieces) (hB : Cutting b.toList others) :
    Cutting (a ++ "\n" ++ b).toList (pieces ++ .blank '\n' :: others) := by
  rw [String.toList_append, String.toList_append, List.append_assoc]
  exact hA.join hClosed hB

theorem line_behind (hA : Cutting a.toList pieces) :
    lineAfter (lineAfter 1 (pieces.flatMap Piece.text)) (Piece.blank '\n').text = 1 + linesOf a := by
  rw [hA.flatMap_text]
  show lineAfter 1 a.toList + 1 = _
  unfold lineAfter linesOf
  omega

theorem tokensOf_join (hA : Cutting a.toList pieces) (others : List Piece) :
    tokensOf 1 (pieces ++ .blank '\n' :: others) =
      tokensOf 1 pieces ++ (tokensOf 1 others).map (Token.later (linesOf a)) := by
  rw [tokensOf_append, tokensOf_cons, line_behind hA, tokensOf_add]
  rfl

theorem remarksOf_join (hA : Cutting a.toList pieces) (others : List Piece) :
    remarksOf 1 (pieces ++ .blank '\n' :: others) = remarksOf 1 pieces ++
      (remarksOf 1 others).map fun remark => (remark.1 + linesOf a, remark.2) := by
  rw [remarksOf_append, remarksOf_cons, line_behind hA, remarksOf_add]
  rfl

end

/--
Two sources without remarks, and a line feed between them: the tokens of the
first one, and behind them those of the second one on lines further on.
-/
theorem lex_join {a b : String} (hA : (lex a).2 = []) (hB : (lex b).2 = []) :
    ∃ front back, Lexed a front ∧ Lexed b back ∧
      Lexed (a ++ "\n" ++ b) (front ++ back.map (Token.later (linesOf a))) := by
  obtain ⟨pieces, hPieces, -⟩ := exists_scanned a.toList
  obtain ⟨others, hOthers, -⟩ := exists_scanned b.toList
  have hFront : remarksOf 1 pieces = [] := by
    rw [← (lex_of_cutting hPieces).2, hA]
    rfl
  have hBack : remarksOf 1 others = [] := by
    rw [← (lex_of_cutting hOthers).2, hB]
    rfl
  have hClosed : ∀ body, .unclosed body ∉ pieces := unclosed_not_mem (by
    rw [hFront]
    intro remark hRemark
    cases hRemark)
  have hRemarks : remarksOf 1 (pieces ++ .blank '\n' :: others) = [] := by
    rw [remarksOf_join hPieces, hFront, hBack]
    rfl
  refine ⟨tokensOf 1 pieces, tokensOf 1 others, lexed_of_cutting hPieces hFront,
    lexed_of_cutting hOthers hBack, ?_⟩
  rw [← tokensOf_join hPieces]
  exact lexed_of_cutting (hPieces.join_sources hClosed hOthers) hRemarks

/--
Lexing goes line by line. If all strings of a source are closed, a line feed and
another source behind it change nothing about its tokens and remarks, and those of
the other one are what they are alone but for their lines, the end of the file included.
-/
theorem lex_over_lines {a b : String}
    (hClosed : ∀ m ∈ (lex a).2, m.complaint ≠ .unterminatedString) :
    (lex a).1 = (lex a).1.dropLast ++ [Token.endOfFile (linesOf a)] ∧
      (∀ t ∈ (lex a).1.dropLast, t.kind ≠ .eof) ∧
      lex (a ++ "\n" ++ b) =
        ((lex a).1.dropLast ++ (lex b).1.map (Token.later (linesOf a)),
          (lex a).2 ++ (lex b).2.map (Remark.later (linesOf a))) := by
  obtain ⟨pieces, hPieces, -⟩ := exists_scanned a.toList
  obtain ⟨others, hOthers, -⟩ := exists_scanned b.toList
  obtain ⟨hTokensA, hRemarksA⟩ := lex_of_cutting hPieces
  obtain ⟨hTokensB, hRemarksB⟩ := lex_of_cutting hOthers
  have hNotOpen : ∀ remark ∈ remarksOf 1 pieces, remark.2 ≠ "Unterminated string." := by
    intro remark hRemark hMessage
    rw [← hRemarksA] at hRemark
    obtain ⟨m, hm, rfl⟩ := List.mem_map.mp hRemark
    exact hClosed m hm
      ((ofCharacters_of_mem_remarks m hm).eq_of_message .unterminatedString hMessage)
  have hWhole := hPieces.join_sources (unclosed_not_mem hNotOpen) hOthers
  obtain ⟨hTokens, hRemarks⟩ := lex_of_cutting hWhole
  have hFront : (lex a).1.dropLast = tokensOf 1 pieces := by
    rw [hTokensA, List.dropLast_concat]
  refine ⟨?_, ?_, Prod.ext ?_ ?_⟩
  · rw [hFront]
    exact hTokensA
  · rw [hFront]
    exact kind_ne_eof_of_mem_tokensOf hPieces 1
  · have hEnd : Token.endOfFile (lineAfter 1 (a ++ "\n" ++ b).toList) =
        (Token.endOfFile (lineAfter 1 b.toList)).later (linesOf a) := by
      have hLine : lineAfter 1 (a ++ "\n" ++ b).toList = lineAfter 1 b.toList + linesOf a := by
        simp [lineAfter, linesOf]
        omega
      rw [hLine]
      rfl
    show (lex (a ++ "\n" ++ b)).1 = (lex a).1.dropLast ++ _
    rw [hTokens, hFront, tokensOf_join hPieces, hTokensB, hEnd, List.map_append, List.append_assoc]
    rfl
  · refine remarks_eq_of_shown ofCharacters_of_mem_remarks ?_ ?_
    · intro m hm
      rcases List.mem_append.mp hm with hHere | hLater
      · exact ofCharacters_of_mem_remarks m hHere
      · obtain ⟨n, hn, rfl⟩ := List.mem_map.mp hLater
        exact ofCharacters_of_mem_remarks n hn
    · show (lex (a ++ "\n" ++ b)).2.map Remark.shown = ((lex a).2 ++ _).map Remark.shown
      rw [hRemarks, remarksOf_join hPieces, List.map_append, hRemarksA, ← hRemarksB, List.map_map,
        List.map_map]
      rfl

/-- A source that ends in a number with a point and in half an operator, and one that goes on. -/
theorem lex_over_lines_halves :
    let a := "@ \"\n\" 1.<"
    let b := "= \""
    (∀ m ∈ (lex a).2, m.complaint ≠ .unterminatedString) ∧
      (lex (a ++ "\n" ++ b)).1.map (fun t => (t.kind, t.line)) =
        [(.string, 2), (.number, 2), (.dot, 2), (.less, 2), (.equal, 3), (.eof, 3)] ∧
      (lex (a ++ "\n" ++ b)).2 =
        [{ line := 1, complaint := .unexpectedCharacter '@' },
          { line := 3, complaint := .unterminatedString }] := by
  intro a b
  have hClosed : ∀ m ∈ (lex a).2, m.complaint ≠ .unterminatedString := by decide +kernel
  obtain ⟨-, -, hWhole⟩ := lex_over_lines (b := b) hClosed
  rw [hWhole]
  exact ⟨hClosed, by decide +kernel, by decide +kernel⟩

end Scriptlet
