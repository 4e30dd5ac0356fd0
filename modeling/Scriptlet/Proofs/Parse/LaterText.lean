import Scriptlet.Parse.Cursor
import Scriptlet.Proofs.Parse.Damage

/-!
# Scriptlet — later text leaves earlier statements alone

Tokens that are a program without complaints keep their statements whatever
stands behind them, be it full of mistakes, unless it starts with an `else`,
which may belong to an `if` at their end. What stands behind them is read as if
it stood alone: the same statements are dropped, and the same complaints are made
in the same order about the same tokens. The same holds for a parse that goes on
in the middle of a list, with anything behind its cursor.

## Results

* `Report.StandsAt`         — the place of a complaint in a list of tokens.
* `StandsAt.behind`         — the place behind other tokens.
* `standsAt_of_mem_reports` — every complaint of a program has one.
* `program_append`          — statements, complaints and the rest of both parts.
* `later_text_leaves_statements` — with the places and with a cursor.
-/

namespace Scriptlet.Parse

open Grammar

namespace Report

/-- A complaint is about the token at a place in a list. -/
structure StandsAt (tokens : List Token) (place : Nat) (r : Report) : Prop where
  token : tokens[place]? = some r.token
  left : place + r.left = tokens.length

/-- With other tokens in front the same complaint stands as much later. -/
theorem StandsAt.behind {tokens : List Token} {place : Nat} {r : Report}
    (h : r.StandsAt tokens place) (front : List Token) :
    r.StandsAt (front ++ tokens) (front.length + place) where
  token := by
    rw [List.getElem?_append_right (Nat.le_add_right ..), Nat.add_sub_cancel_left]
    exact h.token
  left := by
    have := h.left
    rw [List.length_append]
    omega

theorem At.standsAt {after tokens : List Token} {r : Report} (h : r.At after tokens) :
    ∃ place, r.StandsAt tokens place := by
  obtain ⟨front, hFront⟩ := h.token
  refine ⟨front.length, ?_, ?_⟩
  · rw [← hFront, List.getElem?_append_right (Nat.le_refl _), Nat.sub_self]
    rfl
  · have := h.left
    rw [← hFront, List.length_append, List.length_cons]
    omega

end Report

theorem standsAt_of_mem_reports {tokens : List Token} {r : Report}
    (h : r ∈ (program tokens).reports) : ∃ place, r.StandsAt tokens place := by
  obtain ⟨after, hAt⟩ := at_of_mem_reports_program tokens r h
  exact hAt.standsAt

section

variable {a b : List Token} {eof : Token}

/-- What does not start with an `else` does not in front of the end of the file either. -/
theorem next_append_eof (hEof : eof.kind = .eof) (hElse : ∀ t ∈ b.head?, t.kind ≠ .elseKw) :
    Next (· ≠ .elseKw) (b ++ [eof]) := by
  cases b with
  | nil => exact ⟨eof, [], rfl, by simp [hEof]⟩
  | cons t b => exact ⟨t, b ++ [eof], rfl, hElse t rfl⟩

/-- Behind a program without complaints other tokens are read as if they stood alone. -/
theorem program_append (hEof : eof.kind = .eof) (hA : Flawless a eof)
    (hElse : ∀ t ∈ b.head?, t.kind ≠ .elseKw) :
    program (a ++ (b ++ [eof])) =
      { statements := statementsOf a eof ++ (program (b ++ [eof])).statements
        reports := (program (b ++ [eof])).reports
        rest := (program (b ++ [eof])).rest } := by
  rw [program_of_tree_append (hA.tree hEof) (next_append_eof hEof hElse)]

end

/--
Tokens `a` that are read without a complaint, and any tokens `b` behind them that
do not start with an `else`. Together they are read as the statements of `a` and
then what `b` is read as alone, with the complaints about `b` alone, each about
the same token of `b`. A cursor in front of both reads the same, whatever is
behind it and whatever was complained about before.
-/
theorem later_text_leaves_statements (a b : List Token) (eof : Token) (hEof : eof.kind = .eof)
    (hA : Flawless a eof) (hElse : ∀ t ∈ b.head?, t.kind ≠ .elseKw) :
    let earlier := (program (a ++ [eof])).statements
    let later := program (b ++ [eof])
    let whole := program (a ++ (b ++ [eof]))
    whole.statements = earlier ++ later.statements ∧ whole.reports = later.reports ∧
      (∀ r ∈ later.reports, ∃ place, r.StandsAt (b ++ [eof]) place ∧
        r.StandsAt (a ++ (b ++ [eof])) (a.length + place)) ∧
      ∀ c : Cursor, c.rest = a ++ (b ++ [eof]) →
        c.program =
          (.done (earlier ++ later.statements), (c.moveTo later.rest).addReports later.reports) := by
  intro earlier later whole
  have hWhole : whole =
      { statements := earlier ++ later.statements
        reports := later.reports
        rest := later.rest } := program_append hEof hA hElse
  refine ⟨by rw [hWhole], by rw [hWhole], ?_, ?_⟩
  · intro r hr
    obtain ⟨place, hPlace⟩ := standsAt_of_mem_reports hr
    exact ⟨place, hPlace, hPlace.behind a⟩
  · intro c hc
    have hMore : later.rest ≠ [] := by
      have hRest : later.rest = fromEof (b ++ [eof]) := rest_program _
      rw [hRest]
      exact fromEof_ne_nil (by simp) hEof
    have hRead : program c.rest = whole := by rw [hc]
    rw [Cursor.program, hRead, hWhole]
    simp [hMore]

/-- Behind `print a;` the three complaints of `* ; print` are about its own tokens. -/
theorem later_text_leaves_statements_broken :
    let b := [word .star "*", word .semicolon ";", word .printKw "print"]
    Flawless printA (word .eof "") ∧
      (program (printA ++ (b ++ [word .eof ""]))).statements =
        [.print (.variable (word .identifier "a"))] ∧
      (program (printA ++ (b ++ [word .eof ""]))).reports =
        [⟨word .star "*", 4, .noLeftOperand⟩, ⟨word .semicolon ";", 3, .noExpression⟩,
          ⟨word .eof "", 1, .noExpression⟩] := by
  intro b
  have hPrint : Flawless printA (word .eof "") := ⟨by decide, by cbv⟩
  have hStatements : (program (printA ++ [word .eof ""])).statements =
      [.print (.variable (word .identifier "a"))] := by cbv
  have hAlone : program (b ++ [word .eof ""]) =
      { statements := []
        reports := [⟨word .star "*", 4, .noLeftOperand⟩, ⟨word .semicolon ";", 3, .noExpression⟩,
          ⟨word .eof "", 1, .noExpression⟩]
        rest := [word .eof ""] } := by cbv
  obtain ⟨hWhole, hSame, -, -⟩ :=
    later_text_leaves_statements printA b (word .eof "") rfl hPrint (by decide)
  rw [hWhole, hSame, hStatements, hAlone]
  exact ⟨hPrint, rfl, rfl⟩

end Scriptlet.Parse
