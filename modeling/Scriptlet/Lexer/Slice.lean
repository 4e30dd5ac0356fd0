import Scriptlet.Complaint
import Scriptlet.Number.Numeral
import Scriptlet.Token

/-!
# Scriptlet — source text cut into slices

Source text is a sequence of slices, each the longest that a rule allows at its
place: a token, one blank character, a comment up to the end of its line, or one
of the two kinds of text that no rule allows. Cutting reads no further than the
rule needs and loses no character.

## Results

* `firstSlice`          — the slice that a text starts with, and the rest.
* `slices`              — a whole text, cut.
* `Slice.token?`        — the token of a slice, if it is one.
* `Slice.remark?`       — the complaint about a slice, if there is one.
* `text_firstSlice`     — a slice and the rest are the text.
* `flatMap_text_slices` — the slices together are the text.
-/

namespace Scriptlet

open Scriptlet.Text Scriptlet.Number

/-- The letters that may start a word: the ASCII letters and the underscore. -/
def isLetter (c : Char) : Bool := ('a' ≤ c && c ≤ 'z') || ('A' ≤ c && c ≤ 'Z') || c == '_'

/-- What a word may go on with. -/
def isWordChar (c : Char) : Bool := isLetter c || isDigit c

/-- The blanks of source text. -/
def isLayout (c : Char) : Bool := c == ' ' || c == '\r' || c == '\t' || c == '\n'

-- ---------------------------------------------------------------------------
-- Slices
-- ---------------------------------------------------------------------------

/-- What a slice of source text is. -/
inductive SliceKind where
  /-- An operator or a mark of punctuation. -/
  | symbol (kind : TokenKind)
  /-- A keyword or an identifier. -/
  | word
  | number
  | string
  /-- One blank character. -/
  | blank
  /-- Two slashes and what follows them on the line. -/
  | comment
  /-- A character that starts nothing. -/
  | stray
  /-- A string without its closing quote, up to the end of the text. -/
  | unclosed
  deriving DecidableEq, Repr

/-- A slice of source text. -/
structure Slice where
  kind : SliceKind
  text : List Char
  deriving DecidableEq, Repr

/-- The tokens of one character that no longer token starts with. -/
def singleSymbol? : Char → Option TokenKind
  | '(' => some .leftParen
  | ')' => some .rightParen
  | '{' => some .leftBrace
  | '}' => some .rightBrace
  | ',' => some .comma
  | '.' => some .dot
  | ';' => some .semicolon
  | '+' => some .plus
  | '-' => some .minus
  | '*' => some .star
  | _ => none

/-- The tokens of one character that an equals sign extends, alone and extended. -/
def pairedSymbol? : Char → Option (TokenKind × TokenKind)
  | '!' => some (.bang, .bangEqual)
  | '=' => some (.equal, .equalEqual)
  | '<' => some (.less, .lessEqual)
  | '>' => some (.greater, .greaterEqual)
  | _ => none

/-- The fraction of a number: a point that a digit follows, with all the digits, and the rest. -/
def takeFraction : List Char → List Char × List Char
  | '.' :: d :: rest =>
    if isDigit d then ('.' :: d :: rest.takeWhile isDigit, rest.dropWhile isDigit)
    else ([], '.' :: d :: rest)
  | rest => ([], rest)

/-- A number that starts with the given digit, and the rest. -/
def takeNumber (c : Char) (rest : List Char) : Slice × List Char :=
  let (fraction, after) := takeFraction (rest.dropWhile isDigit)
  ({ kind := .number, text := c :: rest.takeWhile isDigit ++ fraction }, after)

/-- A string whose opening quote is given, closed or not, and the rest. -/
def takeString (c : Char) (rest : List Char) : Slice × List Char :=
  match rest.dropWhile (· != c) with
  | [] => ({ kind := .unclosed, text := c :: rest }, [])
  | close :: after =>
    ({ kind := .string, text := c :: rest.takeWhile (· != c) ++ [close] }, after)

/-- A slash or a comment, and the rest. -/
def takeSlash (c : Char) : List Char → Slice × List Char
  | '/' :: rest =>
    ({ kind := .comment, text := c :: '/' :: rest.takeWhile (· != '\n') },
      rest.dropWhile (· != '\n'))
  | rest => ({ kind := .symbol .slash, text := [c] }, rest)

/-- One of two symbols, as an equals sign follows or not, and the rest. -/
def takePaired (c : Char) (alone extended : TokenKind) : List Char → Slice × List Char
  | '=' :: rest => ({ kind := .symbol extended, text := [c, '='] }, rest)
  | rest => ({ kind := .symbol alone, text := [c] }, rest)

/-- The slice that a text starts with, given its first character, and the rest of the text. -/
def firstSlice (c : Char) (rest : List Char) : Slice × List Char :=
  match singleSymbol? c, pairedSymbol? c with
  | some kind, _ => ({ kind := .symbol kind, text := [c] }, rest)
  | none, some (alone, extended) => takePaired c alone extended rest
  | none, none =>
    if c == '/' then takeSlash c rest
    else if isLayout c then ({ kind := .blank, text := [c] }, rest)
    else if c == '"' then takeString c rest
    else if isDigit c then takeNumber c rest
    else if isLetter c then
      ({ kind := .word, text := c :: rest.takeWhile isWordChar }, rest.dropWhile isWordChar)
    else ({ kind := .stray, text := [c] }, rest)

-- ---------------------------------------------------------------------------
-- Nothing is lost
-- ---------------------------------------------------------------------------

theorem takeFraction_append (cs : List Char) :
    (takeFraction cs).1 ++ (takeFraction cs).2 = cs := by
  unfold takeFraction
  split
  · split <;> simp [List.takeWhile_append_dropWhile]
  · rfl

theorem text_takeNumber (c : Char) (rest : List Char) :
    (takeNumber c rest).1.text ++ (takeNumber c rest).2 = c :: rest := by
  simp [takeNumber, takeFraction_append, List.takeWhile_append_dropWhile]

theorem text_takeString (c : Char) (rest : List Char) :
    (takeString c rest).1.text ++ (takeString c rest).2 = c :: rest := by
  unfold takeString
  split
  · simp
  · next close after h =>
    have := List.takeWhile_append_dropWhile (p := (· != c)) (l := rest)
    rw [h] at this
    simpa using this

theorem text_takeSlash (c : Char) (rest : List Char) :
    (takeSlash c rest).1.text ++ (takeSlash c rest).2 = c :: rest := by
  unfold takeSlash
  split <;> simp [List.takeWhile_append_dropWhile]

theorem text_takePaired (c : Char) (alone extended : TokenKind) (rest : List Char) :
    (takePaired c alone extended rest).1.text ++ (takePaired c alone extended rest).2
      = c :: rest := by
  unfold takePaired
  split <;> rfl

/-- A slice and the rest are the text they were cut from. -/
theorem text_firstSlice (c : Char) (rest : List Char) :
    (firstSlice c rest).1.text ++ (firstSlice c rest).2 = c :: rest := by
  unfold firstSlice
  split
  · rfl
  · exact text_takePaired ..
  · split
    · exact text_takeSlash ..
    · split
      · rfl
      · split
        · exact text_takeString ..
        · split
          · exact text_takeNumber ..
          · split
            · simp [List.takeWhile_append_dropWhile]
            · rfl

/-- A slice starts with the character it was cut at, so it is never empty. -/
theorem head?_text_firstSlice (c : Char) (rest : List Char) :
    (firstSlice c rest).1.text.head? = some c := by
  unfold firstSlice takePaired takeSlash takeString takeNumber
  repeat' split
  all_goals rfl

/-- Cutting a slice off leaves fewer characters. -/
theorem length_firstSlice_lt (c : Char) (rest : List Char) :
    (firstSlice c rest).2.length < (c :: rest).length := by
  have h := congrArg List.length (text_firstSlice c rest)
  have hne : (firstSlice c rest).1.text ≠ [] := by
    intro hnil
    have := head?_text_firstSlice c rest
    simp [hnil] at this
  have := List.length_pos_iff.mpr hne
  simp only [List.length_append, List.length_cons] at h ⊢
  omega

-- ---------------------------------------------------------------------------
-- A whole text
-- ---------------------------------------------------------------------------

/-- Source text, cut into slices. -/
def slices : List Char → List Slice
  | [] => []
  | c :: rest => (firstSlice c rest).1 :: slices (firstSlice c rest).2
termination_by cs => cs.length
decreasing_by exact length_firstSlice_lt c rest

/-- The slices together are the text. -/
theorem flatMap_text_slices (cs : List Char) : (slices cs).flatMap Slice.text = cs := by
  fun_induction slices cs with
  | case1 => rfl
  | case2 c rest ih => rw [List.flatMap_cons, ih, text_firstSlice]

/-- No slice is empty. -/
theorem text_ne_nil_of_mem_slices (cs : List Char) : ∀ s ∈ slices cs, s.text ≠ [] := by
  fun_induction slices cs with
  | case1 => simp
  | case2 c rest ih =>
    intro s hs
    rcases List.mem_cons.mp hs with rfl | hs
    · intro hnil
      have := head?_text_firstSlice c rest
      simp [hnil] at this
    · exact ih s hs

-- ---------------------------------------------------------------------------
-- What a slice stands for
-- ---------------------------------------------------------------------------

/-- A complaint and the line it is about. -/
structure Remark where
  line : Int
  complaint : Complaint
  deriving DecidableEq, Repr

/-- A string's text without its quotes. -/
def unquoted (text : List Char) : String := String.ofList (text.drop 1).dropLast

/-- The line on which a text ends that starts on the given line. -/
def lineAfter (line : Int) (text : List Char) : Int := line + (text.count '\n' : Nat)

/-- The token of a slice that ends on the given line, if it is one. -/
def Slice.token? (s : Slice) (line : Int) : Option Token :=
  let lexeme := String.ofList s.text
  match s.kind with
  | .symbol kind => some { kind, lexeme, line }
  | .word => some { kind := .ofWord lexeme, lexeme, line }
  | .number =>
    some { kind := .number, lexeme, literal := .number (Numeral.plain s.text).value, line }
  | .string => some { kind := .string, lexeme, literal := .text (unquoted s.text), line }
  | .blank | .comment | .stray | .unclosed => none

/-- The complaint about a slice that ends on the given line, if there is one. -/
def Slice.remark? (s : Slice) (line : Int) : Option Remark :=
  match s.kind, s.text with
  | .stray, c :: _ => some { line, complaint := .unexpectedCharacter c }
  | .unclosed, _ => some { line, complaint := .unterminatedString }
  | _, _ => none

end Scriptlet
