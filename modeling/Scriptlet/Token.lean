import Scriptlet.Value

/-!
# Scriptlet — tokens

The smallest units of source text. A token keeps its text, the line on which
that text ends, and, for numbers and strings, the value that it denotes.

* `TokenKind`         — the thirty-nine kinds, end of file included.
* `TokenKind.ofWord`  — a keyword's kind, or `identifier`.
* `Token`             — kind, text, value and line.
-/

namespace Scriptlet

/-- What a token is. -/
inductive TokenKind where
  | leftParen | rightParen | leftBrace | rightBrace | comma | dot | minus | plus | semicolon
  | slash | star
  | bang | bangEqual | equal | equalEqual | greater | greaterEqual | less | lessEqual
  | identifier | string | number
  | andKw | classKw | elseKw | falseKw | funKw | forKw | ifKw | nilKw | orKw | printKw
  | returnKw | superKw | thisKw | trueKw | varKw | whileKw
  | eof
  deriving DecidableEq, Repr, Inhabited

/-- The keywords, each with its kind. -/
def keywords : List (String × TokenKind) :=
  [("and", .andKw), ("class", .classKw), ("else", .elseKw), ("false", .falseKw), ("fun", .funKw),
    ("for", .forKw), ("if", .ifKw), ("nil", .nilKw), ("or", .orKw), ("print", .printKw),
    ("return", .returnKw), ("super", .superKw), ("this", .thisKw), ("true", .trueKw),
    ("var", .varKw), ("while", .whileKw)]

/-- The kind of a word: a keyword's own, or an identifier. -/
def TokenKind.ofWord (word : String) : TokenKind := (keywords.lookup word).getD .identifier

/-- A token. The literal is nil unless the token is a number or a string. -/
structure Token where
  kind : TokenKind
  lexeme : String
  literal : Value := .nil
  line : Int
  deriving Inhabited

namespace Token

/-- Whether a token marks the end of the file. -/
def isEof (t : Token) : Bool := t.kind == .eof

/-- Whether a token is of a kind; the end of the file is of no kind that can be asked for. -/
def is (t : Token) (kind : TokenKind) : Bool := !t.isEof && t.kind == kind

/-- The token at the end of a file. -/
def endOfFile (line : Int) : Token where
  kind := .eof
  lexeme := ""
  line := line

end Token

end Scriptlet
