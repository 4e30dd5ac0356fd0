/-!
# Scriptlet — painted text

A paint decides how a marked piece of text looks. The plain paint leaves it as
it is, and the terminal paint puts escape codes around it: the attributes' codes
first, the last attribute outermost, then the color's, then the text, and in
every case the code that ends them all.

* `Paint`          — a way to paint.
* `Paint.plain`    — no codes.
* `Paint.terminal` — terminal escape codes.
-/

namespace Scriptlet

/-- The colors in use. -/
inductive Color where
  | red | green
  deriving DecidableEq, Repr

/-- The text attributes in use. -/
inductive Attribute where
  | bold | underline
  deriving DecidableEq, Repr

/-- A color's name. -/
def Color.name : Color → String
  | red => "red"
  | green => "green"

/-- A color's terminal code. -/
def Color.code : Color → String
  | red => "31"
  | green => "32"

/-- An attribute's name. -/
def Attribute.name : Attribute → String
  | bold => "bold"
  | underline => "underline"

/-- An attribute's terminal code. -/
def Attribute.code : Attribute → String
  | bold => "1"
  | underline => "4"

/-- How a piece of text looks in a color, if any, with attributes. -/
abbrev Paint := String → Option Color → List Attribute → String

/-- The escape sequence of a terminal code. -/
def escapeCode (code : String) : String := "\x1b[" ++ code ++ "m"

namespace Paint

/-- Leaves the text as it is. -/
def plain : Paint := fun text _ _ => text

/-- Puts terminal codes around the text. -/
def terminal : Paint := fun text color attributes =>
  let colored := (color.map (escapeCode ·.code)).getD "" ++ text
  attributes.foldl (fun inner a => escapeCode a.code ++ inner) colored ++ escapeCode "0"

/-- The paint of a reporter that colors or does not. -/
def ofColor (color : Bool) : Paint := if color then terminal else plain

end Paint

end Scriptlet
