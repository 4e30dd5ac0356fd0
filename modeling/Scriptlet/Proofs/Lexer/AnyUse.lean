import Scriptlet.Proofs.Lexer.Lines
import Scriptlet.Proofs.Lexer.PrintedNumbers

/-!
# Scriptlet — one scanner, used in any order

A scanner can be asked for single characters, for single slices and for all of
its source, in any order, and the mark may be old when a slice is asked for.
Whatever was asked before, mark and cursor stay within the source, the cursor and
its line only move forward, and tokens are only added behind the others. Where no
character is left nothing is scanned; elsewhere a slice is at least one character
long, even if it is no numeral. Scanning to the end is scanning slices with the
mark in front of each, and none of those fails.

## Results

* `Request`, `perform`, `after` — requests and sequences of them.
* `Over`, `over_after`      — a scanner over a source stays over it.
* `Grows`, `grows_perform`  — what a request leaves and what it adds.
* `lexToken_cons`           — a slice in front of the cursor is scanned from the mark.
* `read?_of_numberTail`, `lexToken_mark` — with a fresh mark no scan fails.
* `exists_rounds`           — scanning to the end, slice by slice.
* `scanner_under_any_use`   — what holds of every request in every sequence.
-/

namespace Scriptlet

open Scriptlet.Text Scriptlet.Number

-- ---------------------------------------------------------------------------
-- Numbers as numerals
-- ---------------------------------------------------------------------------

theorem toAscii?_eq_some {cs : List Char} (h : ∀ c ∈ cs, c.toNat < 128) :
    Numeral.toAscii? cs = some cs := by
  unfold Numeral.toAscii?
  induction cs with
  | nil => rfl
  | cons c cs ih =>
    obtain ⟨hFirst, hRest⟩ := List.forall_mem_cons.mp h
    rw [List.mapM_cons, if_pos hFirst, ih hRest]
    rfl

theorem dropUnderscores?_eq_some {cs : List Char} (h : '_' ∉ cs) (last : Option Char) :
    Numeral.dropUnderscores? last cs = some cs := by
  induction cs generalizing last with
  | nil => rfl
  | cons c cs ih =>
    obtain ⟨hFirst, hRest⟩ := not_or.mp (List.mem_cons.not.mp h)
    rw [Numeral.dropUnderscores?, ih hRest]
    · rfl
    · exact fun hUnderscore => hFirst hUnderscore.symm

theorem stripWhere_eq_self {p : Char → Bool} {cs : List Char} (h : ∀ c ∈ cs, p c = false) :
    stripWhere p cs = cs := by
  have hDrop {ds : List Char} (hNone : ∀ c ∈ ds, p c = false) : ds.dropWhile p = ds := by
    cases ds with
    | nil => rfl
    | cons d ds => simp [hNone d List.mem_cons_self]
  rw [stripWhere, hDrop h, hDrop (by simpa using h), List.reverse_reverse]

/-- A number of source text is a numeral. -/
theorem exists_plainText {c : Char} {cs : List Char} (hFirst : isDigit c) (hTail : NumberTail cs) :
    ∃ n : Numeral, n.WrittenAs n.plainText ∧ n.plainText = c :: cs ∧ n.exponent = 0 ∧
      n.negative = false := by
  rcases hTail with hDigits | ⟨digits, d, fraction, rfl, hDigits, hSecond, hFraction⟩
  · refine ⟨{ whole := c :: cs }, writtenAs_plainText (List.cons_ne_nil _ _)
      (List.forall_mem_cons.mpr ⟨hFirst, hDigits⟩) (by simp) rfl, ?_, rfl, rfl⟩
    simp [Numeral.plainText, fractionText]
  · refine ⟨{ whole := c :: digits, fraction := d :: fraction },
      writtenAs_plainText (List.cons_ne_nil _ _) (List.forall_mem_cons.mpr ⟨hFirst, hDigits⟩)
        (List.forall_mem_cons.mpr ⟨hSecond, hFraction⟩) rfl, ?_, rfl, rfl⟩
    simp [Numeral.plainText, fractionText]

/-- Read as a whole, a number of source text is the numeral that its digits make. -/
theorem read?_of_numberTail {c : Char} {cs : List Char} (hFirst : isDigit c)
    (hTail : NumberTail cs) : Numeral.read? (c :: cs) = some (Numeral.plain (c :: cs)) := by
  have hPlain {p : Char → Prop} (hDigit : ∀ d, isDigit d = true → p d) (hPoint : p '.') :
      ∀ d ∈ c :: cs, p d := fun d hd =>
    (mem_number hFirst hTail d hd).elim (hDigit d) fun hHere => hHere ▸ hPoint
  have hLimits {d : Char} (h : isDigit d = true) : 48 ≤ d.toNat ∧ d.toNat ≤ 57 := by
    simpa [isDigit, Char.le_def, UInt32.le_iff_toNat_le] using h
  have hAscii : ∀ d ∈ c :: cs, d.toNat < 128 :=
    hPlain (fun d h => by have := hLimits h; omega) (by decide)
  have hUnderscore : '_' ∉ c :: cs := fun h =>
    absurd (mem_number hFirst hTail _ h) (by decide)
  have hBlank : ∀ d ∈ c :: cs, isAsciiBlank d = false := by
    refine hPlain (fun d h => ?_) (by decide)
    have := hLimits h
    have hSpace : d ≠ ' ' := by
      rintro rfl
      exact absurd h (by decide)
    simp [isAsciiBlank, hSpace]
    omega
  obtain ⟨n, hWritten, hText, hExponent, hSign⟩ := exists_plainText hFirst hTail
  have hSame : Numeral.plain (c :: cs) = n := by
    obtain ⟨hWhole, hFraction⟩ := plain_plainText hWritten
    rw [hText] at hWhole hFraction
    calc Numeral.plain (c :: cs)
      _ = { whole := (Numeral.plain (c :: cs)).whole,
            fraction := (Numeral.plain (c :: cs)).fraction } := rfl
      _ = { n with negative := false, exponent := 0 } := by rw [hWhole, hFraction]
      _ = n := by rw [← hSign, ← hExponent]
  have hBare := readBare?_of_takeSign hWritten (hText ▸ takeSign_of_digit hFirst cs)
  rw [hText, ← hSign] at hBare
  rw [Numeral.read?, toAscii?_eq_some hAscii, Option.bind_eq_bind, Option.bind_some,
    dropUnderscores?_eq_some hUnderscore, Option.bind_some, stripWhere_eq_self hBlank, hSame]
  exact hBare

namespace Scanner

-- ---------------------------------------------------------------------------
-- Requests
-- ---------------------------------------------------------------------------

/-- What a scanner can be asked for. -/
inductive Request where
  | mark | lexToken | lex | advance
  | accept (expected : Char)
  | peek (distance : Int)
  deriving DecidableEq

/-- Answers a request. One that fails leaves the scanner where it failed. -/
def perform (s : Scanner) : Request → Except ScanError Unit × Scanner
  | .mark => (.ok (), s.mark)
  | .lexToken => s.lexToken
  | .lex => (.ok (), s.lex)
  | .advance =>
    match s.advance with
    | .ok (_, s) => (.ok (), s)
    | .error e => (.error e, s)
  | .accept expected => (.ok (), (s.accept expected).2)
  | .peek distance => ((s.peek distance).map fun _ => (), s)

/-- The scanner after requests, those that failed included. -/
def after (s : Scanner) (requests : List Request) : Scanner :=
  requests.foldl (fun s request => (s.perform request).2) s

/-- The characters from the mark up to the cursor, cut out of the whole source. -/
def sliceOf (source : List Char) (s : Scanner) : List Char :=
  (source.drop s.start).take (s.current - s.start)

-- ---------------------------------------------------------------------------
-- Staying over the source
-- ---------------------------------------------------------------------------

/-- A scanner is over a source: nothing of it is lost, and no place is past its end. -/
structure Over (source : List Char) (s : Scanner) : Prop where
  source_eq : s.source = source
  overrunBehind_eq : s.overrunBehind = 0
  overrunPending_eq : s.overrunPending = 0

section

variable {source : List Char} {s s' : Scanner}

theorem over_ofSource (source : String) : Over source.toList (ofSource source) := ⟨rfl, rfl, rfl⟩

/-- The mark is not past the cursor, and the cursor not past the end. -/
theorem Over.places (h : Over source s) :
    s.start = s.behind.length ∧ s.current = s.behind.length + s.pending.length ∧
      source.length = s.current + s.rest.length := by
  have hLength := congrArg List.length h.source_eq
  simp only [Scanner.source, List.length_append, List.length_reverse] at hLength
  rw [current, start, h.overrunBehind_eq, h.overrunPending_eq]
  omega

/-- The text between mark and cursor is cut out of the source. -/
theorem Over.lexeme_eq (h : Over source s) : s.lexeme = sliceOf source s := by
  obtain ⟨hStart, hCurrent, -⟩ := h.places
  have hPending : s.current - s.start = s.pending.reverse.length := by
    rw [List.length_reverse]
    omega
  have hBehind : s.start = s.behind.reverse.length := by rw [hStart, List.length_reverse]
  rw [sliceOf, hPending, hBehind, ← h.source_eq, Scanner.source, List.append_assoc,
    List.drop_left, List.take_left]
  rfl

/-- The scanner is over the source still, nowhere further back, and no token is lost. -/
structure Onward (source : List Char) (s s' : Scanner) : Prop where
  stays : Over source s'
  start_le : s.start ≤ s'.start
  current_le : s.current ≤ s'.current
  line_le : s.line ≤ s'.line
  tokens_prefix : s.tokens.toList <+: s'.tokens.toList

theorem onward_refl (h : Over source s) : Onward source s s :=
  ⟨h, Nat.le_refl _, Nat.le_refl _, Int.le_refl _, List.prefix_rfl⟩

theorem Onward.trans {t : Scanner} (h : Onward source s s') (hNext : Onward source s' t) :
    Onward source s t :=
  ⟨hNext.stays, Nat.le_trans h.start_le hNext.start_le, Nat.le_trans h.current_le hNext.current_le,
    Int.le_trans h.line_le hNext.line_le, h.tokens_prefix.trans hNext.tokens_prefix⟩

theorem onward_mark (h : Over source s) : Onward source s s.mark := by
  refine ⟨⟨(source_mark s).trans h.source_eq, ?_, rfl⟩, ?_, ?_, Int.le_refl _, List.prefix_rfl⟩
  · show s.overrunBehind + s.overrunPending = 0
    rw [h.overrunBehind_eq, h.overrunPending_eq]
  · show s.start ≤ (s.pending ++ s.behind).length + (s.overrunBehind + s.overrunPending)
    rw [List.length_append, start]
    omega
  · show s.current ≤ (s.pending ++ s.behind).length + (s.overrunBehind + s.overrunPending) + 0 + 0
    rw [List.length_append, current, start]
    omega

theorem current_move (s : Scanner) (slice : Slice) :
    (s.move slice).current = s.current + slice.text.length := by
  show s.start + (slice.text.reverse ++ s.pending).length + s.overrunPending = _
  rw [List.length_append, List.length_reverse, current]
  omega

/-- Moving over what comes next. -/
theorem onward_move (h : Over source s) {slice : Slice} {rest : List Char}
    (hRest : s.rest = slice.text ++ rest) : Onward source s (s.move slice) := by
  refine ⟨⟨(source_move hRest).trans h.source_eq, h.overrunBehind_eq, h.overrunPending_eq⟩,
    Nat.le_refl _, ?_, le_lineAfter _ _, List.prefix_rfl⟩
  rw [current_move]
  omega

theorem onward_emit (h : Over source s) (token? : Option Token) :
    Onward source s (s.emit token?) := by
  refine ⟨⟨h.source_eq, h.overrunBehind_eq, h.overrunPending_eq⟩, Nat.le_refl _, Nat.le_refl _,
    Int.le_refl _, ?_⟩
  show s.tokens.toList <+: (s.tokens ++ token?.toArray).toList
  rw [Array.toList_append]
  exact List.prefix_append _ _

/-- Moving over one character. -/
theorem onward_cons (h : Over source s) {c : Char} {rest : List Char} (hRest : s.rest = c :: rest) :
    Onward source s { s with pending := c :: s.pending, rest } := by
  refine ⟨⟨?_, h.overrunBehind_eq, h.overrunPending_eq⟩, Nat.le_refl _, ?_, Int.le_refl _,
    List.prefix_rfl⟩
  · rw [← h.source_eq, Scanner.source, Scanner.source, hRest]
    simp
  · show s.start + s.pending.length + s.overrunPending ≤
      s.start + (c :: s.pending).length + s.overrunPending
    rw [List.length_cons]
    omega

-- ---------------------------------------------------------------------------
-- One slice
-- ---------------------------------------------------------------------------

theorem lexToken_nil (h : s.rest = []) : s.lexToken = (.error .endOfSource, s) := by
  rw [lexToken, h]

theorem ofWord_ne_eof (word : String) : TokenKind.ofWord word ≠ .eof := by
  by_cases hKeyword : ∃ kind, (word, kind) ∈ keywords
  · obtain ⟨kind, hMem⟩ := hKeyword
    rw [ofWord_of_mem hMem]
    exact (kind_plain (.inr ⟨_, hMem⟩)).2.2
  · rw [ofWord_of_not_mem (not_exists.mp hKeyword)]
    decide

/-- A slice's token has the text of the slice, and does not end the file. -/
theorem token?_firstSlice {c : Char} {rest text : List Char} {line : Int} {t : Token}
    (h : ({ (firstSlice c rest).1 with text } : Slice).token? line = some t) :
    t.kind ≠ .eof ∧ t.lexeme = String.ofList text := by
  obtain ⟨piece, hShows, hCut⟩ := isCut_firstSlice c rest
  generalize firstSlice c rest = cut at *
  obtain ⟨slice, after⟩ := cut
  unfold Slice.token? at h
  cases hShows with
  | symbol =>
    obtain rfl := Option.some.inj h
    cases hCut with
    | token hRule hLongest hComment => exact ⟨kind_ne_eof hRule, rfl⟩
  | word =>
    obtain rfl := Option.some.inj h
    exact ⟨ofWord_ne_eof _, rfl⟩
  | number =>
    obtain rfl := Option.some.inj h
    exact ⟨by simp, rfl⟩
  | string =>
    obtain rfl := Option.some.inj h
    exact ⟨by simp, rfl⟩
  | blank => cases h
  | comment => cases h
  | stray => cases h
  | unclosed => cases h

theorem number_firstSlice {c : Char} {rest : List Char} (h : (firstSlice c rest).1.kind = .number) :
    ∃ d cs, (firstSlice c rest).1.text = d :: cs ∧ isDigit d ∧ NumberTail cs := by
  obtain ⟨piece, hShows, hCut⟩ := isCut_firstSlice c rest
  generalize firstSlice c rest = cut at *
  obtain ⟨slice, after⟩ := cut
  cases hShows with
  | number =>
    cases hCut with
    | token hRule hLongest hComment => exact text_of_number hRule
  | symbol | word | string | blank | comment | stray | unclosed => cases h

/-- A slice is passed over whether it is scanned or fails; its token's text starts at the mark. -/
theorem lexToken_cons {c : Char} {rest : List Char} (h : s.rest = c :: rest) :
    ∃ token?, s.lexToken.2 = (s.move (firstSlice c rest).1).emit token? ∧
      ∀ t ∈ token?, t.kind ≠ .eof ∧
        t.lexeme = String.ofList (s.move (firstSlice c rest).1).lexeme := by
  rw [lexToken, h]
  dsimp only
  split
  · next hNumber =>
    split
    · exact ⟨none, by simp [emit], by simp⟩
    · refine ⟨_, rfl, fun t ht => ?_⟩
      obtain rfl := Option.some.inj ht
      exact ⟨by simp, rfl⟩
  · exact ⟨_, rfl, fun t ht => token?_firstSlice ht⟩

theorem onward_lexToken (h : Over source s) : Onward source s s.lexToken.2 := by
  cases hRest : s.rest with
  | nil =>
    rw [lexToken_nil hRest]
    exact onward_refl h
  | cons c rest =>
    obtain ⟨token?, hScanned, -⟩ := lexToken_cons hRest
    have hMove := onward_move h (hRest.trans (text_firstSlice c rest).symm)
    rw [hScanned]
    exact hMove.trans (onward_emit hMove.stays _)

/-- A slice is at least one character long. -/
theorem current_lt_lexToken {c : Char} {rest : List Char} (h : s.rest = c :: rest) :
    s.current < s.lexToken.2.current := by
  obtain ⟨token?, hScanned, -⟩ := lexToken_cons h
  have hLength : 0 < (firstSlice c rest).1.text.length := by
    obtain ⟨piece, hShows, hCut⟩ := isCut_firstSlice c rest
    rw [hShows.text_eq]
    exact List.length_pos_iff.mpr hCut.text_ne_nil
  have hCurrent : s.lexToken.2.current = s.current + (firstSlice c rest).1.text.length := by
    rw [hScanned]
    exact current_move s _
  omega

/-- The token of a slice, if there is one, is cut out of the source from mark to cursor. -/
theorem tokens_lexToken (h : Over source s) :
    ∃ added, s.lexToken.2.tokens.toList = s.tokens.toList ++ added ∧
      ∀ t ∈ added, t.kind ≠ .eof ∧ t.lexeme.toList = sliceOf source s.lexToken.2 := by
  have hOnward := onward_lexToken h
  cases hRest : s.rest with
  | nil =>
    rw [lexToken_nil hRest]
    exact ⟨[], (List.append_nil _).symm, by simp⟩
  | cons c rest =>
    obtain ⟨token?, hScanned, hToken⟩ := lexToken_cons hRest
    have hText : s.lexToken.2.lexeme = (s.move (firstSlice c rest).1).lexeme := by
      rw [hScanned]
      rfl
    refine ⟨token?.toList, ?_, fun t ht => ?_⟩
    · rw [hScanned, ← Option.toList_toArray]
      exact Array.toList_append
    · obtain ⟨hKind, hLexeme⟩ := hToken t (Option.mem_toList.mp ht)
      rw [hLexeme, String.toList_ofList, ← hText]
      exact ⟨hKind, hOnward.stays.lexeme_eq⟩

-- ---------------------------------------------------------------------------
-- Scanning to the end
-- ---------------------------------------------------------------------------

/-- With the mark in front of it a slice is scanned without a failure. -/
theorem lexToken_mark {c : Char} {rest : List Char} (h : s.rest = c :: rest) :
    s.mark.lexToken = (.ok (), s.step (firstSlice c rest).1) := by
  have hRest : s.mark.rest = c :: rest := h
  have hLexeme : (s.mark.move (firstSlice c rest).1).lexeme = (firstSlice c rest).1.text := by
    show ((firstSlice c rest).1.text.reverse ++ []).reverse = _
    rw [List.append_nil, List.reverse_reverse]
  rw [lexToken, hRest]
  dsimp only
  rw [hLexeme]
  split
  · next hNumber =>
    obtain ⟨d, cs, hText, hFirst, hTail⟩ := number_firstSlice hNumber
    rw [hText, read?_of_numberTail hFirst hTail]
    simp only [step, Slice.token?, hNumber, hText]
  · rfl

/-- So many slices, each with the mark in front of it. -/
def rounds (n : Nat) : List Request := (List.replicate n [.mark, .lexToken]).flatten

theorem after_append (s : Scanner) (requests more : List Request) :
    s.after (requests ++ more) = (s.after requests).after more := List.foldl_append

theorem after_rounds_succ (s : Scanner) (n : Nat) :
    s.after (rounds (n + 1)) = (s.after (rounds n)).mark.lexToken.2 := by
  rw [rounds, List.replicate_succ', List.flatten_append, after_append]
  rfl

theorem after_rounds_succ' (s : Scanner) (n : Nat) :
    s.after (rounds (n + 1)) = s.mark.lexToken.2.after (rounds n) := by
  rw [rounds, List.replicate_succ, List.flatten_cons, after_append]
  rfl

theorem onward_rounds (h : Over source s) (n : Nat) : Onward source s (s.after (rounds n)) := by
  induction n with
  | zero => exact onward_refl h
  | succ n ih =>
    rw [after_rounds_succ]
    have hMark := onward_mark ih.stays
    exact (ih.trans hMark).trans (onward_lexToken hMark.stays)

/-- Every token that rounds add is cut out of the source in its round. -/
theorem tokens_rounds (h : Over source s) (n : Nat) :
    ∃ added, (s.after (rounds n)).tokens.toList = s.tokens.toList ++ added ∧
      ∀ t ∈ added, t.kind ≠ .eof ∧
        ∃ k < n, t.lexeme.toList = sliceOf source (s.after (rounds (k + 1))) := by
  induction n with
  | zero => exact ⟨[], (List.append_nil _).symm, by simp⟩
  | succ n ih =>
    obtain ⟨added, hTokens, hAdded⟩ := ih
    obtain ⟨last, hLast, hMore⟩ := tokens_lexToken (onward_mark (onward_rounds h n).stays).stays
    rw [← after_rounds_succ] at hLast hMore
    refine ⟨added ++ last, ?_, fun t ht => ?_⟩
    · rw [hLast, ← List.append_assoc, ← hTokens]
      rfl
    · rcases List.mem_append.mp ht with hOld | hNew
      · obtain ⟨hKind, k, hk, hLexeme⟩ := hAdded t hOld
        exact ⟨hKind, k, Nat.lt_succ_of_lt hk, hLexeme⟩
      · exact ⟨(hMore t hNew).1, n, Nat.lt_succ_self n, (hMore t hNew).2⟩

/-- The slices up to the end are scanned in rounds, none of which fails. -/
theorem exists_rounds (s : Scanner) :
    ∃ n, (slices s.rest).foldl step s = s.after (rounds n) ∧ (s.after (rounds n)).rest = [] ∧
      ∀ k < n, (s.after (rounds k)).mark.lexToken.1 = .ok () := by
  generalize hRest : s.rest = text
  induction text using slices.induct generalizing s with
  | case1 =>
    rw [slices]
    exact ⟨0, rfl, hRest, by simp⟩
  | case2 c rest ih =>
    have hScanned := lexToken_mark hRest
    have hAfter : s.mark.lexToken.2.rest = (firstSlice c rest).2 := by
      rw [hScanned]
      show s.rest.drop (firstSlice c rest).1.text.length = _
      rw [hRest, ← text_firstSlice, List.drop_left]
    obtain ⟨n, hDone, hEnd, hRounds⟩ := ih s.mark.lexToken.2 hAfter
    refine ⟨n + 1, ?_, ?_, fun k hk => ?_⟩
    · rw [after_rounds_succ', ← hDone, slices, List.foldl_cons, hScanned]
    · rw [after_rounds_succ']
      exact hEnd
    · cases k with
      | zero => exact congrArg Prod.fst hScanned
      | succ k =>
        rw [after_rounds_succ']
        exact hRounds k (Nat.lt_of_succ_lt_succ hk)

/-- A scan to the end: rounds none of which fails, and the end of the file behind their tokens. -/
structure LexedInRounds (source : List Char) (s s' : Scanner) (n : Nat) : Prop where
  eq_emit : s' = (s.after (rounds n)).emit (some (.endOfFile (s.after (rounds n)).line))
  atEnd : (s.after (rounds n)).atEnd = true
  succeeds : ∀ k < n, (s.after (rounds k)).mark.lexToken.1 = .ok ()
  tokens : ∃ added, (s.after (rounds n)).tokens.toList = s.tokens.toList ++ added ∧
    ∀ t ∈ added, t.kind ≠ .eof ∧
      ∃ k < n, t.lexeme.toList = sliceOf source (s.after (rounds (k + 1)))

theorem exists_lexedInRounds (h : Over source s) : ∃ n, LexedInRounds source s s.lex n := by
  obtain ⟨n, hDone, hEnd, hRounds⟩ := exists_rounds s
  refine ⟨n, ?_, ?_, hRounds, tokens_rounds h n⟩
  · rw [lex, hDone]
  · rw [atEnd, hEnd]
    rfl

-- ---------------------------------------------------------------------------
-- Any requests
-- ---------------------------------------------------------------------------

theorem perform_advance_nil (h : s.rest = []) :
    s.perform .advance = (.error .endOfSource, s) := by
  rw [perform, advance, h]

theorem perform_advance_cons {c : Char} {rest : List Char} (h : s.rest = c :: rest) :
    s.perform .advance = (.ok (), { s with pending := c :: s.pending, rest }) := by
  rw [perform, advance, h]

/-- A character is passed over or not, and that is all. -/
theorem accept_cases (s : Scanner) (expected : Char) :
    (s.accept expected).2 = s ∨ ∃ c rest, s.rest = c :: rest ∧
      (s.accept expected).2 = { s with pending := c :: s.pending, rest } := by
  unfold accept
  cases hRest : s.rest with
  | nil => exact .inl rfl
  | cons c rest =>
    dsimp only
    split
    · exact .inr ⟨c, rest, rfl, rfl⟩
    · exact .inl rfl

theorem onward_perform (h : Over source s) (request : Request) :
    Onward source s (s.perform request).2 := by
  cases request with
  | mark => exact onward_mark h
  | lexToken => exact onward_lexToken h
  | lex =>
    obtain ⟨n, hLexed⟩ := exists_lexedInRounds h
    have hRounds := onward_rounds h n
    show Onward source s s.lex
    rw [hLexed.eq_emit]
    exact hRounds.trans (onward_emit hRounds.stays _)
  | advance =>
    cases hRest : s.rest with
    | nil =>
      rw [perform_advance_nil hRest]
      exact onward_refl h
    | cons c rest =>
      rw [perform_advance_cons hRest]
      exact onward_cons h hRest
  | accept expected =>
    rcases accept_cases s expected with hSame | ⟨c, rest, hRest, hMoved⟩
    · exact hSame.symm ▸ onward_refl h
    · exact hMoved.symm ▸ onward_cons h hRest
  | peek distance => exact onward_refl h

theorem over_after (h : Over source s) (requests : List Request) :
    Over source (s.after requests) := by
  induction requests generalizing s with
  | nil => exact h
  | cons request requests ih => exact ih (onward_perform h request).stays

/-- Where no scan to the end is asked for, a token is cut out of the source as it stands then. -/
theorem tokens_perform (h : Over source s) {request : Request} (hOne : request ≠ .lex) :
    ∃ added, (s.perform request).2.tokens.toList = s.tokens.toList ++ added ∧
      ∀ t ∈ added, t.kind ≠ .eof ∧ t.lexeme.toList = sliceOf source (s.perform request).2 := by
  have hNone {s' : Scanner} (hSame : s'.tokens = s.tokens) :
      ∃ added, s'.tokens.toList = s.tokens.toList ++ added ∧
        ∀ t ∈ added, t.kind ≠ .eof ∧ t.lexeme.toList = sliceOf source s' :=
    ⟨[], by rw [hSame, List.append_nil], by simp⟩
  cases request with
  | mark => exact hNone rfl
  | lexToken => exact tokens_lexToken h
  | lex => exact absurd rfl hOne
  | advance =>
    cases hRest : s.rest with
    | nil => exact hNone (by rw [perform_advance_nil hRest])
    | cons c rest => exact hNone (by rw [perform_advance_cons hRest])
  | accept expected =>
    refine hNone ?_
    show (s.accept expected).2.tokens = s.tokens
    rcases accept_cases s expected with hSame | ⟨c, rest, -, hMoved⟩
    · rw [hSame]
    · rw [hMoved]
  | peek distance => exact hNone rfl

/--
Whatever a scanner was asked for before, a request leaves mark and cursor in
order and within the source, the cursor and its line nowhere further back, and
the tokens there are as they were; a token that is added has the text between
mark and cursor. At the end nothing can be read, and nothing changes; elsewhere a
slice takes the cursor further. A scan to the end gets there in rounds.
-/
theorem scanner_under_any_use (source : String) (requests : List Request) (request : Request) :
    let s := (ofSource source).after requests
    let result := s.perform request
    s.start ≤ s.current ∧ s.current ≤ source.length ∧
      s.current ≤ result.2.current ∧ s.line ≤ result.2.line ∧
      (request ≠ .lex → ∃ added, result.2.tokens.toList = s.tokens.toList ++ added ∧
        ∀ t ∈ added, t.kind ≠ .eof ∧ t.lexeme.toList = sliceOf source.toList result.2) ∧
      (request = .advance ∨ request = .lexToken → s.current = source.length →
        result = (.error .endOfSource, s)) ∧
      (request = .lexToken → s.current < source.length → s.current < result.2.current) ∧
      (request = .lex → result.1 = .ok () ∧ result.2.current = source.length ∧
        ∃ n, LexedInRounds source.toList s result.2 n) := by
  intro s result
  have hOver : Over source.toList s := over_after (over_ofSource source) requests
  have hOnward : Onward source.toList s result.2 := onward_perform hOver request
  obtain ⟨hStart, hCurrent, hLength⟩ := hOver.places
  rw [String.length_toList] at hLength
  refine ⟨by omega, by omega, hOnward.current_le, hOnward.line_le, tokens_perform hOver, ?_, ?_, ?_⟩
  · intro hRequest hEnd
    have hRest : s.rest = [] := List.length_eq_zero_iff.mp (by omega)
    rcases hRequest with rfl | rfl
    · exact perform_advance_nil hRest
    · exact lexToken_nil hRest
  · rintro rfl hBefore
    obtain ⟨c, rest, hRest⟩ := List.exists_cons_of_length_pos (show 0 < s.rest.length by omega)
    exact current_lt_lexToken hRest
  · rintro rfl
    obtain ⟨n, hLexed⟩ := exists_lexedInRounds hOver
    obtain ⟨-, -, hEnd⟩ := hOnward.stays.places
    have hRest : result.2.rest = [] := by
      show s.lex.rest = []
      rw [hLexed.eq_emit]
      exact List.isEmpty_iff.mp hLexed.atEnd
    rw [hRest, String.length_toList] at hEnd
    exact ⟨rfl, hEnd.symm, n, hLexed⟩

end

/-- With an old mark the text of a number may be no numeral: the scan fails behind its digit. -/
theorem scanner_under_any_use_stale :
    let s := (ofSource "a 1").after [.lexToken, .accept ' ']
    s.lexToken.1 = .error (.notNumeral "a 1") ∧ s.current < s.lexToken.2.current ∧
      s.lexToken.2.tokens.toList.map Token.lexeme = ["a"] := by
  intro s
  obtain ⟨-, -, -, -, -, -, hFurther, -⟩ :=
    scanner_under_any_use "a 1" [.lexToken, .accept ' '] .lexToken
  exact ⟨by decide +kernel, hFurther rfl (by decide +kernel), by decide +kernel⟩

end Scanner

end Scriptlet
