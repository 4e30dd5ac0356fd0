import Scriptlet.Lexer.Scanner
import Scriptlet.Proofs.Lexer.SliceCuts

/-!
# Scriptlet — the lexer and the lexical grammar

Every source is cut by the lexical grammar in exactly one way, and the lexer
yields what the pieces stand for: their tokens in order and one token for the
end of the file behind them, and a remark for every piece that no rule allows.

## Results

* `Piece.token?`, `Piece.remark?` — what a piece that ends on a line stands for.
* `located`                 — pieces with the lines on which they end.
* `Scanned`, `exists_scanned` — what scanning the rest of a source adds.
* `lex_maximal_munch`       — the tokens and the remarks of every source.
-/

namespace Scriptlet

-- ---------------------------------------------------------------------------
-- What pieces stand for
-- ---------------------------------------------------------------------------

/-- The token of a piece that ends on the given line, if it is one. -/
def Piece.token? (line : Int) : Piece → Option Token
  | token kind text value =>
    some { kind, lexeme := String.ofList text, literal := value, line }
  | _ => none

/-- The line and the wording of the complaint about a piece, if there is one. -/
def Piece.remark? (line : Int) : Piece → Option (Int × String)
  | stray c => some (line, "Unexpected character '" ++ c.toString ++ "'.")
  | unclosed _ => some (line, "Unterminated string.")
  | _ => none

/-- Pieces with the lines on which they end, the first of which starts on the given line. -/
def located (line : Int) : List Piece → List (Piece × Int)
  | [] => []
  | piece :: pieces =>
    (piece, lineAfter line piece.text) :: located (lineAfter line piece.text) pieces

/-- The tokens of pieces. -/
def tokensOf (line : Int) (pieces : List Piece) : List Token :=
  (located line pieces).filterMap fun place => place.1.token? place.2

/-- The complaints about pieces. -/
def remarksOf (line : Int) (pieces : List Piece) : List (Int × String) :=
  (located line pieces).filterMap fun place => place.1.remark? place.2

/-- A remark as it is reported. -/
def Remark.shown (r : Remark) : Int × String := (r.line, r.complaint.message)

theorem tokensOf_cons (line : Int) (piece : Piece) (pieces : List Piece) :
    tokensOf line (piece :: pieces) = (piece.token? (lineAfter line piece.text)).toList ++
      tokensOf (lineAfter line piece.text) pieces := by
  unfold tokensOf
  rw [located, List.filterMap_cons]
  cases piece.token? (lineAfter line piece.text) with
  | none => rfl
  | some t => rfl

theorem remarksOf_cons (line : Int) (piece : Piece) (pieces : List Piece) :
    remarksOf line (piece :: pieces) = (piece.remark? (lineAfter line piece.text)).toList ++
      remarksOf (lineAfter line piece.text) pieces := by
  unfold remarksOf
  rw [located, List.filterMap_cons]
  cases piece.remark? (lineAfter line piece.text) with
  | none => rfl
  | some r => rfl

theorem lineAfter_append (line : Int) (front back : List Char) :
    lineAfter line (front ++ back) = lineAfter (lineAfter line front) back := by
  unfold lineAfter
  rw [List.count_append]
  omega

/-- No token of a cut source ends the file. -/
theorem kind_ne_eof_of_mem_tokensOf {source : List Char} {pieces : List Piece}
    (h : Cutting source pieces) (line : Int) : ∀ t ∈ tokensOf line pieces, t.kind ≠ .eof := by
  induction h generalizing line with
  | nil =>
    intro t ht
    cases ht
  | @cons piece rest pieces hCut hRest ih =>
    intro t ht
    rw [tokensOf_cons] at ht
    rcases List.mem_append.mp ht with hFirst | hTail
    · cases hCut with
      | token hRule hLongest hComment =>
        rw [List.mem_singleton.mp hFirst]
        exact kind_ne_eof hRule
      | blank hBlank => cases hFirst
      | comment hBody hEnd => cases hFirst
      | stray hBlank hNone => cases hFirst
      | unclosed hBody => cases hFirst
    · exact ih _ t hTail

-- ---------------------------------------------------------------------------
-- Slices and pieces
-- ---------------------------------------------------------------------------

namespace Slice.Shows

variable {slice : Slice} {piece : Piece}

theorem text_eq (h : slice.Shows piece) : slice.text = piece.text := by
  cases h <;> rfl

theorem token?_eq (h : slice.Shows piece) (line : Int) :
    slice.token? line = piece.token? line := by
  cases h <;> rfl

theorem remark?_eq (h : slice.Shows piece) (line : Int) :
    (slice.remark? line).map Remark.shown = piece.remark? line := by
  cases h <;> rfl

end Slice.Shows

-- ---------------------------------------------------------------------------
-- Scanning
-- ---------------------------------------------------------------------------

/-- What a scanner has found after it went over pieces. -/
structure Scanned (s done : Scanner) (pieces : List Piece) : Prop where
  tokens : done.tokens.toList = s.tokens.toList ++ tokensOf s.line pieces
  remarks : done.remarks.toList.map Remark.shown =
    s.remarks.toList.map Remark.shown ++ remarksOf s.line pieces
  line : done.line = lineAfter s.line (pieces.flatMap Piece.text)

theorem scanned_nil (s : Scanner) : Scanned s s [] := by
  refine ⟨?_, ?_, ?_⟩
  · exact (List.append_nil _).symm
  · exact (List.append_nil _).symm
  · show s.line = lineAfter s.line []
    unfold lineAfter
    simp

/-- One step finds the token and the remark of one piece. -/
theorem scanned_step {slice : Slice} {piece : Piece} (h : slice.Shows piece) (s : Scanner) :
    (s.step slice).line = lineAfter s.line piece.text ∧
      (s.step slice).tokens.toList =
        s.tokens.toList ++ (piece.token? (lineAfter s.line piece.text)).toList ∧
      (s.step slice).remarks.toList.map Remark.shown = s.remarks.toList.map Remark.shown ++
        (piece.remark? (lineAfter s.line piece.text)).toList := by
  have hLine : (s.step slice).line = lineAfter s.line piece.text := by
    show lineAfter s.line slice.text = _
    rw [h.text_eq]
  refine ⟨hLine, ?_, ?_⟩
  · show (s.tokens ++ (slice.token? (lineAfter s.line slice.text)).toArray).toList = _
    rw [h.token?_eq, h.text_eq, Array.toList_append, Option.toList_toArray]
  · show (s.remarks ++ (slice.remark? (lineAfter s.line slice.text)).toArray).toList.map _ = _
    rw [Array.toList_append, List.map_append, Option.toList_toArray, ← h.remark?_eq, h.text_eq]
    cases slice.remark? (lineAfter s.line piece.text) with
    | none => rfl
    | some r => rfl

theorem Scanned.cons {slice : Slice} {piece : Piece} {pieces : List Piece} {s done : Scanner}
    (h : slice.Shows piece) (hRest : Scanned (s.step slice) done pieces) :
    Scanned s done (piece :: pieces) := by
  obtain ⟨hLine, hTokens, hRemarks⟩ := scanned_step h s
  refine ⟨?_, ?_, ?_⟩
  · rw [hRest.tokens, hTokens, hLine, tokensOf_cons, List.append_assoc]
  · rw [hRest.remarks, hRemarks, hLine, remarksOf_cons, List.append_assoc]
  · rw [hRest.line, hLine, List.flatMap_cons, lineAfter_append]

/-- What the slices of a source stand for is a cutting of it, and scanning them finds just that. -/
theorem exists_scanned (source : List Char) :
    ∃ pieces, Cutting source pieces ∧
      ∀ s : Scanner, Scanned s ((slices source).foldl Scanner.step s) pieces := by
  induction source using slices.induct with
  | case1 =>
    refine ⟨[], .nil, fun s => ?_⟩
    rw [slices]
    exact scanned_nil s
  | case2 c rest ih =>
    obtain ⟨pieces, hCutting, hScanned⟩ := ih
    obtain ⟨piece, hShows, hCut⟩ := isCut_firstSlice c rest
    refine ⟨piece :: pieces, ?_, fun s => ?_⟩
    · have hWhole := Cutting.cons hCut hCutting
      rw [← hShows.text_eq, text_firstSlice] at hWhole
      exact hWhole
    · rw [slices, List.foldl_cons]
      exact (hScanned (s.step (firstSlice c rest).1)).cons hShows

-- ---------------------------------------------------------------------------
-- Whole sources
-- ---------------------------------------------------------------------------

/--
A source is cut by the lexical grammar in exactly one way, without an empty piece
and without a lost character. Its tokens are those of the pieces with the end of
the file behind them, and the complaints are those about the pieces.
-/
theorem lex_maximal_munch (source : String) :
    ∃ pieces, Cutting source.toList pieces ∧
      (∀ other, Cutting source.toList other → other = pieces) ∧
      (∀ piece ∈ pieces, piece.text ≠ []) ∧ pieces.flatMap Piece.text = source.toList ∧
      (lex source).1 = tokensOf 1 pieces ++ [Token.endOfFile (lineAfter 1 source.toList)] ∧
      (∀ t ∈ tokensOf 1 pieces, t.kind ≠ .eof) ∧
      (lex source).2.map Remark.shown = remarksOf 1 pieces := by
  obtain ⟨pieces, hCutting, hScanned⟩ := exists_scanned source.toList
  obtain ⟨hTokens, hRemarks, hLine⟩ := hScanned (Scanner.ofSource source)
  refine ⟨pieces, hCutting, ?_, hCutting.text_ne_nil, hCutting.flatMap_text, ?_, ?_, ?_⟩
  · intro other hOther
    exact hOther.unique hCutting
  · rw [hCutting.flatMap_text] at hLine
    generalize hDone : (slices source.toList).foldl Scanner.step (Scanner.ofSource source) = done
      at hTokens hLine
    have hLex : (Scanner.ofSource source).lex = done.emit (some (.endOfFile done.line)) := by
      rw [← hDone]
      rfl
    show (Scanner.ofSource source).lex.tokens.toList = _
    rw [hLex, hLine]
    show (done.tokens ++ (some (Token.endOfFile _)).toArray).toList = _
    rw [Array.toList_append, hTokens, Option.toList_toArray]
    rfl
  · exact kind_ne_eof_of_mem_tokensOf hCutting 1
  · exact hRemarks

end Scriptlet
