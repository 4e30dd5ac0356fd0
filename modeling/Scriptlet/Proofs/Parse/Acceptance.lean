import Scriptlet.Proofs.Parse.Completeness

/-!
# Scriptlet — the parser accepts its grammar

Tokens whose last one is their only end of file are complained about exactly if
they are no sentence of the grammar. If they are one, the statements that the
parser returns are its tree, and there is no other tree.

## Results

* `reads_program_iff`       — what it means that nothing was complained about.
* `program_accepts`         — sentences, complaints and trees.
* `program_accepts_nested`  — behind two open `if` an `else` belongs to the second.
-/

namespace Scriptlet.Parse

open Grammar

/-- Up to its only end of file a program is read whatever it complains about. -/
theorem rest_program_file {tokens : List Token} {eof : Token}
    (hTokens : ∀ t ∈ tokens, t.kind ≠ .eof) (hEof : eof.kind = .eof) :
    (program (tokens ++ [eof])).rest = [eof] := by
  have hRead : ReadUpTo [eof] (tokens ++ [eof]) := ⟨tokens, rfl, hTokens⟩
  rw [rest_program, fromEof_of_readUpTo hRead]
  simp [fromEof, hEof]

/-- Without a complaint the whole file was read. -/
theorem reads_program_iff {tokens : List Token} {eof : Token}
    (hTokens : ∀ t ∈ tokens, t.kind ≠ .eof) (hEof : eof.kind = .eof) {statements : List Stmt} :
    (program (tokens ++ [eof])).Reads statements [eof] ↔
      (program (tokens ++ [eof])).reports = [] ∧
        (program (tokens ++ [eof])).statements = statements := by
  constructor
  · intro h
    obtain ⟨hStatements, hReports, -, -⟩ := h
    exact ⟨hReports, hStatements⟩
  · intro h
    obtain ⟨hReports, hStatements⟩ := h
    exact ⟨hStatements, hReports, rest_program_file hTokens hEof, List.cons_ne_nil _ _⟩

/-- The tree of a program is what the parser reads without a complaint. -/
theorem programTree_iff {tokens : List Token} {eof : Token}
    (hTokens : ∀ t ∈ tokens, t.kind ≠ .eof) (hEof : eof.kind = .eof) {statements : List Stmt} :
    ProgramTree tokens statements ↔
      (program (tokens ++ [eof])).reports = [] ∧
        (program (tokens ++ [eof])).statements = statements := by
  rw [← reads_program_iff hTokens hEof]
  constructor
  · intro hTree
    exact reads_of_programTree hEof hTree
  · intro hReads
    obtain ⟨used, hUsed, hTree⟩ := programTree_of_reads hReads
    obtain rfl := List.append_cancel_right hUsed
    exact hTree

/--
Nothing is complained about exactly in front of a sentence of the grammar, and
then the statements are its tree.
-/
theorem program_accepts (tokens : List Token) (eof : Token)
    (hTokens : ∀ t ∈ tokens, t.kind ≠ .eof) (hEof : eof.kind = .eof) :
    ((program (tokens ++ [eof])).reports = [] ↔
        Sentence ((tokens ++ [eof]).map Token.kind)) ∧
      ((program (tokens ++ [eof])).reports = [] →
        ProgramTree tokens (program (tokens ++ [eof])).statements ∧
          ∀ statements, ProgramTree tokens statements →
            statements = (program (tokens ++ [eof])).statements) := by
  refine ⟨?_, ?_⟩
  · rw [sentence_iff_programTree hEof]
    constructor
    · intro hReports
      exact ⟨_, (programTree_iff hTokens hEof).mpr ⟨hReports, rfl⟩⟩
    · intro h
      obtain ⟨statements, hTree⟩ := h
      exact ((programTree_iff hTokens hEof).mp hTree).1
  · intro hReports
    refine ⟨(programTree_iff hTokens hEof).mpr ⟨hReports, rfl⟩, ?_⟩
    intro statements hTree
    exact ((programTree_iff hTokens hEof).mp hTree).2.symm

-- ---------------------------------------------------------------------------
-- An else behind two open ifs
-- ---------------------------------------------------------------------------

/-- A token without a value on the first line. -/
def word (kind : TokenKind) (lexeme : String) : Token where
  kind := kind
  lexeme := lexeme
  line := 1

/-- `if (a) if (b) print c; else print d;` -/
def nestedIf : List Token :=
  [word .ifKw "if", word .leftParen "(", word .identifier "a", word .rightParen ")",
    word .ifKw "if", word .leftParen "(", word .identifier "b", word .rightParen ")",
    word .printKw "print", word .identifier "c", word .semicolon ";", word .elseKw "else",
    word .printKw "print", word .identifier "d", word .semicolon ";"]

/-- The only tree gives the `else` to the second `if`. -/
theorem program_accepts_nested :
    Sentence ((nestedIf ++ [word .eof ""]).map Token.kind) ∧
      ∀ statements, ProgramTree nestedIf statements ↔
        statements = [.ifElse (.variable (word .identifier "a"))
          (.ifElse (.variable (word .identifier "b")) (.print (.variable (word .identifier "c")))
            (some (.print (.variable (word .identifier "d"))))) none] := by
  have hReports : (program (nestedIf ++ [word .eof ""])).reports = [] := by cbv
  have hStatements : (program (nestedIf ++ [word .eof ""])).statements =
      [.ifElse (.variable (word .identifier "a"))
        (.ifElse (.variable (word .identifier "b")) (.print (.variable (word .identifier "c")))
          (some (.print (.variable (word .identifier "d"))))) none] := by cbv
  obtain ⟨hSentence, hTree⟩ := program_accepts nestedIf (word .eof "") (by decide) rfl
  obtain ⟨hExists, hUnique⟩ := hTree hReports
  rw [hStatements] at hExists hUnique
  refine ⟨hSentence.mp hReports, fun statements => ⟨hUnique statements, ?_⟩⟩
  rintro rfl
  exact hExists

end Scriptlet.Parse
