/-!
# Scriptlet — complaints about source text

What can be wrong with source text, and the wording of each complaint.

* `Complaint`          — the causes, those of characters first, then those of tokens.
* `Complaint.message`  — the wording.
-/

namespace Scriptlet

/-- What is wrong with a piece of source text. -/
inductive Complaint where
  /-- No token starts with this character. -/
  | unexpectedCharacter (c : Char)
  /-- A string has no closing quote. -/
  | unterminatedString
  /-- No expression starts here. -/
  | noExpression
  /-- A binary operator stands where an operand has to be. -/
  | noLeftOperand
  /-- What stands before an equals sign is not a variable. -/
  | invalidTarget
  /-- No name follows `var`. -/
  | noVariableName
  /-- No semicolon ends a variable declaration. -/
  | openDeclaration
  /-- No semicolon ends an expression statement. -/
  | openExpression
  /-- No semicolon ends a print statement. -/
  | openPrint
  /-- No brace ends a block. -/
  | openBlock
  /-- No parenthesis ends a group. -/
  | openGroup
  /-- No parenthesis follows `if`. -/
  | noIfParen
  /-- No parenthesis ends the condition of an `if`. -/
  | openIfCondition
  /-- No parenthesis follows `while`. -/
  | noWhileParen
  /-- No parenthesis ends the condition of a `while`. -/
  | openWhileCondition
  /-- No parenthesis follows `for`. -/
  | noForParen
  /-- No semicolon ends the condition of a `for`. -/
  | openForCondition
  /-- No parenthesis ends the clauses of a `for`. -/
  | openForClauses
  /-- A token that a caller asked for, in the caller's words. -/
  | missing (text : String)
  deriving DecidableEq, Repr, Inhabited

/-- The wording of a complaint. -/
def Complaint.message : Complaint → String
  | unexpectedCharacter c => "Unexpected character '" ++ c.toString ++ "'."
  | unterminatedString => "Unterminated string."
  | noExpression => "Expected an expression."
  | noLeftOperand => "Binary operator is missing a left-hand operand."
  | invalidTarget => "Invalid assignment target."
  | noVariableName => "Expected variable name."
  | openDeclaration => "Expected ';' after variable declaration."
  | openExpression => "Expected ';' after expression."
  | openPrint => "Expected ';' after value."
  | openBlock => "Expected '\x7d' after block."
  | openGroup => "Expected ')' after expression."
  | noIfParen => "Expected '(' after 'if'."
  | openIfCondition => "Expected ')' after if condition."
  | noWhileParen => "Expected '(' after 'while'."
  | openWhileCondition => "Expected ')' after while-loop condition."
  | noForParen => "Expected '(' after 'for'."
  | openForCondition => "Expected ';' after for-loop condition."
  | openForClauses => "Expected ')' after for-loop clauses."
  | missing text => text

end Scriptlet
