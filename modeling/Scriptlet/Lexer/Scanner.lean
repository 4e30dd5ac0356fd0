import Scriptlet.Lexer.Slice
import Scriptlet.Text.Quoted

/-!
# Scriptlet — scanning source text

A scanner stands between two characters of its source and remembers a mark at or
before that place. A token's text is what lies between the mark and the cursor,
so a token scanned without setting the mark first starts at the old mark.
Scanning a whole source sets the mark before every slice. Only a caller that
asks for nothing at the end of the source gets past it; the places there hold no
character.

## Results

* `Scanner.lexToken` — scans one slice and keeps the mark.
* `Scanner.lex`      — scans to the end, with a mark before every slice.
* `lex`              — the tokens and the remarks of a source.
* `source_move`      — moving the cursor leaves the source as it is.
-/

namespace Scriptlet

open Scriptlet.Text Scriptlet.Number

/-- A place in source text, what was found up to it, and a mark behind it. -/
structure Scanner where
  /-- The characters before the mark, last first. -/
  behind : List Char := []
  /-- The characters between the mark and the cursor, last first. -/
  pending : List Char := []
  /-- The characters after the cursor. -/
  rest : List Char
  /-- The places past the end of the source that lie before the mark. -/
  overrunBehind : Nat := 0
  /-- The places past the end of the source between the mark and the cursor. -/
  overrunPending : Nat := 0
  /-- The line of the cursor. -/
  line : Int := 1
  tokens : Array Token := #[]
  remarks : Array Remark := #[]

/-- Why a scan cannot go on. -/
inductive ScanError where
  /-- There is no character left. -/
  | endOfSource
  /-- A number's text, taken from an old mark, is no numeral. -/
  | notNumeral (lexeme : String)
  deriving DecidableEq, Repr

/-- The wording of a scan error. -/
def ScanError.message : ScanError → String
  | endOfSource => "string index out of range"
  | notNumeral lexeme => "could not convert string to float: " ++ quoted lexeme

namespace Scanner

/-- A scanner at the start of a source. -/
def ofSource (source : String) : Scanner where
  rest := source.toList

/-- The place of the mark. -/
def start (s : Scanner) : Nat := s.behind.length + s.overrunBehind

/-- The place of the cursor. -/
def current (s : Scanner) : Nat := s.start + s.pending.length + s.overrunPending

/-- The whole source. -/
def source (s : Scanner) : List Char := s.behind.reverse ++ s.pending.reverse ++ s.rest

/-- Whether no character is left. -/
def atEnd (s : Scanner) : Bool := s.rest.isEmpty

/-- The text between the mark and the cursor. -/
def lexeme (s : Scanner) : List Char := s.pending.reverse

/-- Sets the mark at the cursor. -/
def mark (s : Scanner) : Scanner :=
  { s with
    behind := s.pending ++ s.behind
    pending := []
    overrunBehind := s.overrunBehind + s.overrunPending
    overrunPending := 0 }

/-- Moves the cursor over one character. -/
def advance (s : Scanner) : Except ScanError (Char × Scanner) :=
  match s.rest with
  | [] => .error .endOfSource
  | c :: rest => .ok (c, { s with pending := c :: s.pending, rest })

/--
The character at a distance from the cursor, none past the end of the source. A
place before the start of the source is counted from its end.
-/
def peek (s : Scanner) (distance : Int) : Except ScanError (Option Char) :=
  let place := s.current + distance
  let source := s.source
  if 0 ≤ place then .ok source[place.toNat]?
  else if -place ≤ source.length then .ok source[(source.length + place).toNat]?
  else .error .endOfSource

/-- Moves over the next character if it is the expected one. -/
def accept (s : Scanner) (expected : Char) : Bool × Scanner :=
  match s.rest with
  | c :: rest =>
    if c = expected then (true, { s with pending := c :: s.pending, rest }) else (false, s)
  | [] => (false, s)

/-- Moves past the end of the source, if no character is left. -/
def acceptEnd (s : Scanner) : Bool × Scanner :=
  if s.atEnd then (true, { s with overrunPending := s.overrunPending + 1 }) else (false, s)

/-- Moves the cursor over a slice and notes the complaint about it. -/
def move (s : Scanner) (slice : Slice) : Scanner :=
  let line := lineAfter s.line slice.text
  { s with
    pending := slice.text.reverse ++ s.pending
    rest := s.rest.drop slice.text.length
    line
    remarks := s.remarks ++ (slice.remark? line).toArray }

/-- Adds a token, if there is one. -/
def emit (s : Scanner) (token? : Option Token) : Scanner :=
  { s with tokens := s.tokens ++ token?.toArray }

/--
Scans the slice at the cursor and keeps the mark. The token's text starts at the
mark; a number's has to be a numeral as a whole, or the scan stops behind it.
-/
def lexToken (s : Scanner) : Except ScanError Unit × Scanner :=
  match s.rest with
  | [] => (.error .endOfSource, s)
  | c :: rest =>
    let slice := (firstSlice c rest).1
    let moved := s.move slice
    let whole : Slice := { slice with text := moved.lexeme }
    if slice.kind = .number then
      let lexeme := String.ofList whole.text
      match Numeral.read? whole.text with
      | none => (.error (.notNumeral lexeme), moved)
      | some n =>
        (.ok (), moved.emit (some
          { kind := .number, lexeme, literal := .number n.value, line := moved.line }))
    else (.ok (), moved.emit (whole.token? moved.line))

/-- Sets the mark and scans a slice. -/
def step (s : Scanner) (slice : Slice) : Scanner :=
  let moved := s.mark.move slice
  moved.emit (slice.token? moved.line)

/-- Scans to the end of the source and adds the token that marks it. -/
def lex (s : Scanner) : Scanner :=
  let done := (slices s.rest).foldl step s
  done.emit (some (.endOfFile done.line))

/-- Moving the cursor over what comes next leaves the source as it is. -/
theorem source_move {s : Scanner} {slice : Slice} {rest : List Char}
    (h : s.rest = slice.text ++ rest) : (s.move slice).source = s.source := by
  simp [move, source, h]

/-- Setting the mark leaves the source as it is. -/
theorem source_mark (s : Scanner) : s.mark.source = s.source := by
  simp [mark, source]

end Scanner

/-- The tokens of a source and the remarks about it. -/
def lex (source : String) : List Token × List Remark :=
  let s := (Scanner.ofSource source).lex
  (s.tokens.toList, s.remarks.toList)

end Scriptlet
