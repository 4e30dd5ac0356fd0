import Scriptlet.Parse.Statement

/-!
# Scriptlet — a cursor over tokens

A parse that stops between two tokens and goes on later: the tokens behind the
cursor, those in front of it, and the reports so far. Every rule of the grammar
runs from the cursor and leaves it where the rule stopped reading, also where
the rule gave its construct up.

## Results

* `Cursor.run`       — runs a rule.
* `Cursor.peek?`, `Cursor.previous?`, `Cursor.advance`, `Cursor.accept` — single tokens.
* `tokens_moveTo`    — moving over tokens leaves the list as it is.
-/

namespace Scriptlet.Parse

/-- A place in a list of tokens and the reports up to it. -/
structure Cursor where
  /-- The tokens behind the cursor, last first. -/
  behind : List Token := []
  rest : List Token
  reports : List Report := []

/-- How a rule ended. -/
inductive Outcome (α : Type) where
  | done (value : α)
  | abandoned
  | ranOff

namespace Cursor

/-- The whole list of tokens. -/
def tokens (c : Cursor) : List Token := c.behind.reverse ++ c.rest

/-- The place of the cursor. -/
def current (c : Cursor) : Nat := c.behind.length

/-- Moves forward to a suffix of what is left. -/
def moveTo (c : Cursor) (rest : List Token) : Cursor :=
  { c with
    behind := (c.rest.take (c.rest.length - rest.length)).reverse ++ c.behind
    rest }

/-- Adds reports. -/
def addReports (c : Cursor) (reports : List Report) : Cursor :=
  { c with reports := c.reports ++ reports }

/-- The next token. -/
def peek? (c : Cursor) : Option Token := c.rest.head?

/-- The token behind the cursor; at the start of the list, its last token. -/
def previous? (c : Cursor) : Option Token := c.behind.head? <|> c.rest.getLast?

/-- Whether the next token ends the file. -/
def atEnd? (c : Cursor) : Option Bool := c.peek?.map Token.isEof

/-- Whether the next token is of a kind. -/
def check? (c : Cursor) (kind : TokenKind) : Option Bool := c.peek?.map (·.is kind)

/-- Moves over the next token, but not over the end of the file. -/
def advance (c : Cursor) : Cursor :=
  match c.rest with
  | [] => c
  | t :: rest => if t.isEof then c else { c with behind := t :: c.behind, rest }

/-- Moves over the next token if it is of one of the kinds. -/
def accept (c : Cursor) (kinds : List TokenKind) : Bool × Cursor :=
  if c.peek?.any fun t => kinds.any t.is then (true, c.advance) else (false, c)

/-- Runs a rule from the cursor. -/
def run {α : Type} (c : Cursor) (rule : (tokens : List Token) → Step α tokens) :
    Outcome α × Cursor :=
  match rule c.rest with
  | .done value rest reports _ => (.done value, (c.moveTo rest).addReports reports)
  | .abandoned rest reports _ => (.abandoned, (c.moveTo rest).addReports reports)
  | .ranOff reports => (.ranOff, (c.moveTo []).addReports reports)

/-- Reads the next token if it is of a kind, and otherwise complains in the given words. -/
def consume (c : Cursor) (kind : TokenKind) (complaint : String) : Outcome Token × Cursor :=
  c.run (expect kind (.missing complaint))

/-- Skips to where reading goes on after a complaint. -/
def synchronize (c : Cursor) : Outcome Unit × Cursor :=
  match Parse.synchronize c.rest with
  | none => (.ranOff, c.moveTo [])
  | some rest => (.done (), c.moveTo rest)

/--
Reads a declaration; the value is none if it was dropped. At the end of the file
there is nothing to drop, and the complaint is all that happens.
-/
def declaration (c : Cursor) : Outcome (Option Stmt) × Cursor :=
  match c.rest with
  | [] => (.ranOff, c)
  | t :: tail =>
    if ht : t.kind = .eof then
      match c.run statement with
      | (.done s, c) => (.done (some s), c)
      | (.abandoned, c) => (.done none, c)
      | (.ranOff, c) => (.ranOff, c)
    else match Parse.declaration t tail ht with
      | .done s? rest reports _ => (.done s?, (c.moveTo rest).addReports reports)
      | .ranOff reports => (.ranOff, (c.moveTo []).addReports reports)

/-- Reads declarations up to the end of the file. -/
def program (c : Cursor) : Outcome (List Stmt) × Cursor :=
  let p := Parse.program c.rest
  let c := (c.moveTo p.rest).addReports p.reports
  (if p.rest.isEmpty then .ranOff else .done p.statements, c)

/-- Moving to a suffix leaves the list as it is. -/
theorem tokens_moveTo {c : Cursor} {rest : List Token} (h : rest <:+ c.rest) :
    (c.moveTo rest).tokens = c.tokens := by
  obtain ⟨front, hf⟩ := h
  have : c.rest.take (c.rest.length - rest.length) = front := by
    rw [← hf]
    simp
  simp [moveTo, tokens, this, hf]

/-- The cursor never moves back. -/
theorem current_le_moveTo (c : Cursor) (rest : List Token) :
    c.current ≤ (c.moveTo rest).current := by
  simp [current, moveTo]

end Cursor

end Scriptlet.Parse
