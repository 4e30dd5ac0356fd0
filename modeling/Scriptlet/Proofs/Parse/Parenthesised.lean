import Scriptlet.Proofs.Grammar.Spans
import Scriptlet.Proofs.Parse.Acceptance
import Scriptlet.Proofs.Run.Context
import Scriptlet.Session.Basic

/-!
# Scriptlet — parentheses around an expression

The tree of a program shows how its operators bind. Parentheses around the tokens
of any expression in it say nothing new: the program is read as before, with the
parentheses kept in the tree, and it runs as before.

## Results

* `eval_grouping`           — parentheses do what is between them.
* `parenthesised_alike`     — a program with parentheses around one of its expressions.
* `parenthesised_alike_increment` — the last clause of a `for` loop, which moves in the tree.
-/

namespace Scriptlet.Parse

open Grammar

/-- Parentheses do what is between them. -/
theorem eval_grouping (x : Expr) : eval (.grouping x) = eval x := rfl

/--
Every expression of a program that is read without a complaint was read from
tokens, unless it is the condition that a `for` loop left out. With parentheses
around these tokens the program is read without a complaint as well, to the same
statements except that the parentheses are kept. From every session they run as
before, to the same end, with the same lines printed, the same names bound and
the same fault reported.
-/
theorem parenthesised_alike {tokens : List Token} {eof left right : Token}
    (hTokens : ∀ t ∈ tokens, t.kind ≠ .eof) (hEof : eof.kind = .eof)
    (hLeft : left.kind = .leftParen) (hRight : right.kind = .rightParen)
    (hReports : (program (tokens ++ [eof])).reports = []) {c : Stmt.ListContext} {node : Expr}
    (hNode : c.fill node = (program (tokens ++ [eof])).statements) :
    (∃ hole before span after, tokens = before ++ (span ++ after) ∧
        ProgramGap hole before after c.fill ∧ Fills hole span node) ∧
      (∀ {m : Nonterminal} {before span after : List Token},
        tokens = before ++ (span ++ after) → ProgramGap (some m) before after c.fill →
          ExprTree m span node →
            let again := program (before ++ left :: (span ++ right :: (after ++ [eof])))
            again.reports = [] ∧ again.statements = c.fill (.grouping node)) ∧
      ∀ (rounds : Nat),
        execAll rounds (c.fill (.grouping node)) = execAll rounds (c.fill node) ∧
          ∀ s : Session,
            s.interpret rounds (c.fill (.grouping node)) = s.interpret rounds (c.fill node) := by
  refine ⟨?_, ?_, ?_⟩
  · exact exists_programGap ((programTree_iff hTokens hEof).mpr ⟨hReports, rfl⟩) hNode
  · rintro m before span after rfl hGap hSpan
    have hTree := hGap.fill (Fills.parenthesised hSpan hLeft hRight)
    have hFile : ∀ t ∈ before ++ (left :: (span ++ [right]) ++ after), t.kind ≠ .eof := by
      simp only [List.forall_mem_append, List.forall_mem_cons] at hTokens ⊢
      obtain ⟨hBefore, hInside, hAfter⟩ := hTokens
      exact ⟨hBefore, ⟨by simp [hLeft], hInside, by simp [hRight]⟩, hAfter⟩
    have hRead := (programTree_iff hFile hEof).mp hTree
    simpa using hRead
  · intro rounds
    have hRuns : execAll rounds (c.fill (.grouping node)) = execAll rounds (c.fill node) :=
      execAll_fill (eval_grouping node) rounds c
    refine ⟨hRuns, ?_⟩
    intro s
    unfold Session.interpret
    rw [hRuns]

/-- `for (;; i = i + j) print i;`, and the same with `(i + j)`. -/
theorem parenthesised_alike_increment :
    let i : Token := word .identifier "i"
    let j : Token := word .identifier "j"
    let plus : Token := word .plus "+"
    let head : List Token :=
      [word .forKw "for", word .leftParen "(", word .semicolon ";", word .semicolon ";", i,
        word .equal "="]
    let body : List Token :=
      [word .rightParen ")", word .printKw "print", i, word .semicolon ";"]
    let sum : Expr := .binary (.variable i) plus (.variable j)
    let loop (step : Expr) : List Stmt :=
      [.whileLoop (.literal (.bool true))
        (.block [.print (.variable i), .expression (.assign i step)])]
    let again := program (head ++ word .leftParen "(" ::
      ([i, plus, j] ++ word .rightParen ")" :: (body ++ [word .eof ""])))
    again.reports = [] ∧ again.statements = loop (.grouping sum) ∧
      ∀ rounds, execAll rounds (loop (.grouping sum)) = execAll rounds (loop sum) := by
  intro i j plus head body sum loop again
  have hTokens : ∀ t ∈ head ++ ([i, plus, j] ++ body), t.kind ≠ .eof := by decide
  have hReports : (program (head ++ ([i, plus, j] ++ body) ++ [word .eof ""])).reports = [] := by
    cbv
  have hStatements :
      (program (head ++ ([i, plus, j] ++ body) ++ [word .eof ""])).statements = loop sum := by
    cbv
  let c : Stmt.ListContext :=
    { front := []
      inner := .whileBody (.literal (.bool true))
        (.block [.print (.variable i)] (.expression (.assign i .here)) [])
      back := [] }
  have hSum : ExprTree (.level .term) [i, plus, j] sum :=
    .operator .term (by decide) (.operand .term (.operand .factor (.noUnary (.name rfl))))
      (.operand .factor (.noUnary (.name rfl)))
  obtain ⟨hSpan⟩ := hSum.loosen
  have hPrint : StmtTree (.statement false) [word .printKw "print", i, word .semicolon ";"]
      (.print (.variable i)) := by
    have hName : ExprTree .primary [i] (.variable i) := .name rfl
    exact .print rfl rfl hName.toExpression
  have hGap : ProgramGap (some .assignment) head body c.fill := by
    have hStep : ExprGap .assignment .expression [i, word .equal "="] [] (Expr.assign i ·) :=
      .expression (.assign rfl rfl .here)
    have hLoop : StmtGap (some .assignment) (.statement false) head body _ :=
      .forIncrement rfl rfl rfl rfl (.absent rfl) .absent hStep hPrint
    exact .mk [] [] (by simp) (.statement hLoop)
  have hNode : c.fill sum = _ := hStatements.symm
  have hLeft : (word .leftParen "(").kind = .leftParen := rfl
  have hRight : (word .rightParen ")").kind = .rightParen := rfl
  obtain ⟨-, hAgain, hRuns⟩ := parenthesised_alike hTokens rfl hLeft hRight hReports hNode
  obtain ⟨hNone, hSame⟩ := hAgain rfl hGap hSpan
  exact ⟨hNone, hSame, fun rounds => (hRuns rounds).1⟩

end Scriptlet.Parse
