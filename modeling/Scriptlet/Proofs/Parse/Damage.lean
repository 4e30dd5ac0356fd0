import Scriptlet.Proofs.Parse.Confined
import Scriptlet.Proofs.Parse.Succession

/-!
# Scriptlet — a bad declaration harms only itself

A declaration of tokens that keep to it yields a statement or none and complains
about its own tokens only, whatever stands behind its semicolon. Between
statements that are read without a complaint it therefore does no harm: they are
read as if it were not there, in a program as well as in a block.

## Results

* `Damage`, `Settles`       — such a declaration and what becomes of it.
* `Damage.settles`          — nothing behind the semicolon has a part in that.
* `program_of_settles`, `program_block_of_settles` — the statements around it.
* `damage_confined`         — all of it together.
-/

namespace Scriptlet.Parse

open Grammar Step

-- ---------------------------------------------------------------------------
-- The declaration by itself
-- ---------------------------------------------------------------------------

/-- A report about one of the given tokens, in front of `behind`. -/
def Report.In (tokens behind : List Token) (r : Report) : Prop :=
  ∃ front later, tokens = front ++ r.token :: later ∧ r.left = (later ++ behind).length + 1

theorem Report.AboutRead.in {tokens behind : List Token} {r : Report}
    (h : r.AboutRead (tokens ++ behind) behind) : r.In tokens behind := by
  obtain ⟨after, hAt, later, rfl⟩ := h
  obtain ⟨front, hFront⟩ := hAt.token
  have hTokens : (front ++ r.token :: later) ++ behind = tokens ++ behind := by
    simpa using hFront
  exact ⟨front, later, (List.append_cancel_right hTokens).symm, hAt.left⟩

/-- Confined tokens that start neither a `for`, whose head has semicolons, nor an `else`. -/
structure Damage (d : List Token) : Prop extends Confined d where
  first : ∀ t ∈ d.head?, t.kind ≠ .forKw ∧ t.kind ≠ .elseKw

/--
What becomes of a declaration, whatever stands behind its semicolon: a statement
or none, and complaints about its tokens, as they are in front of the end of the
file.
-/
structure Settles (d : List Token) (semicolon eof : Token) (s? : Option Stmt)
    (complaints : List Report) : Prop where
  about : ∀ r ∈ complaints, r.In (d ++ [semicolon]) [eof]
  declared : ∀ back more, Next (· ≠ .elseKw) back → back.length = more + 1 →
    ∃ t tail, ∃ ht : t.kind ≠ .eof, ∃ h, d ++ semicolon :: back = t :: tail ∧
      (t ∈ d.head? ∨ t.kind = .semicolon) ∧
      declaration t tail ht = .done s? back (complaints.map (·.moved more)) h

/-- The first of the tokens up to the semicolon. -/
theorem Damage.exists_first {d : List Token} (h : Damage d) {semicolon : Token}
    (hSemicolon : semicolon.kind = .semicolon) :
    ∃ t more, t.kind ≠ .eof ∧ t.kind ≠ .forKw ∧ (t ∈ d.head? ∨ t.kind = .semicolon) ∧
      ∀ back, d ++ semicolon :: back = t :: (more ++ back) := by
  cases d with
  | nil => exact ⟨semicolon, [], by simp [hSemicolon], by simp [hSemicolon], .inr hSemicolon,
      fun back => rfl⟩
  | cons t d =>
    obtain ⟨hFor, -⟩ := h.first t rfl
    obtain ⟨-, -, hEof⟩ := h.plain t List.mem_cons_self
    exact ⟨t, d ++ [semicolon], hEof, hFor, .inl rfl, fun back => by simp⟩

theorem Damage.settles {d : List Token} (h : Damage d) {semicolon eof : Token}
    (hSemicolon : semicolon.kind = .semicolon) (hEof : eof.kind = .eof) :
    ∃ s? complaints, Settles d semicolon eof s? complaints := by
  obtain ⟨t, more, ht, hFor, hFirst, hTokens⟩ := h.exists_first hSemicolon
  have hEnd : Next (· ≠ .elseKw) [eof] := ⟨eof, [], rfl, by simp [hEof]⟩
  -- the end of the file and any other tokens behind the semicolon
  have declared : ∀ back n, Next (· ≠ .elseKw) back → back.length = n + 1 →
      ∃ s? reports h h', declaration t (more ++ [eof]) ht = .done s? [eof] reports h ∧
        declaration t (more ++ back) ht = .done s? back (reports.map (·.moved n)) h' ∧
        ∀ r ∈ reports, r.AboutRead (t :: (more ++ [eof])) [eof] := by
    intro back n hNext hLength
    let C : Closing :=
      { semicolon, kind := hSemicolon, short := [eof], long := back, more := n
        length := by rw [hLength, List.length_singleton, Nat.add_comm]
        short_next := hEnd, long_next := hNext }
    have hAhead : C.Ahead (t :: (more ++ [eof])) (t :: (more ++ back)) :=
      ⟨d, h.toConfined, (hTokens [eof]).symm, (hTokens back).symm⟩
    exact declaration_confined hAhead hFor ht
  obtain ⟨s?, complaints, hr, _, hDone, -, hAbout⟩ := declared [eof] 0 hEnd rfl
  refine ⟨s?, complaints, ?_, ?_⟩
  · intro r hMem
    have hRead := hAbout r hMem
    rw [← hTokens, ← List.singleton_append, ← List.append_assoc] at hRead
    exact hRead.in
  · intro back n hNext hLength
    obtain ⟨s?', reports, _, hr', hFile, hBack, -⟩ := declared back n hNext hLength
    rw [hDone] at hFile
    cases hFile
    exact ⟨t, more ++ back, ht, hr', hTokens back, hFirst, hBack⟩

/-- Tokens that are read without a complaint in front of the end of the file. -/
structure Flawless (a : List Token) (eof : Token) : Prop where
  tokens : ∀ t ∈ a, t.kind ≠ .eof
  reports : (program (a ++ [eof])).reports = []

/-- The statements of tokens in front of the end of the file. -/
def statementsOf (a : List Token) (eof : Token) : List Stmt := (program (a ++ [eof])).statements

theorem Flawless.tree {a : List Token} {eof : Token} (h : Flawless a eof)
    (hEof : eof.kind = .eof) : ProgramTree a (statementsOf a eof) :=
  (programTree_iff h.tokens hEof).mpr ⟨h.reports, rfl⟩

theorem Flawless.program_eq {a : List Token} {eof : Token} (h : Flawless a eof)
    (hEof : eof.kind = .eof) :
    program (a ++ [eof]) = { statements := statementsOf a eof, reports := [], rest := [eof] } := by
  have hRest := rest_program_file h.tokens hEof
  calc program (a ++ [eof])
      = { statements := statementsOf a eof, reports := (program (a ++ [eof])).reports,
          rest := (program (a ++ [eof])).rest } := rfl
    _ = { statements := statementsOf a eof, reports := [], rest := [eof] } := by
      rw [h.reports, hRest]

theorem Damage.next {d : List Token} (h : Damage d) {semicolon : Token}
    (hSemicolon : semicolon.kind = .semicolon) (back : List Token) :
    Next (· ≠ .elseKw) (d ++ semicolon :: back) := by
  cases d with
  | nil => exact ⟨semicolon, back, rfl, by simp [hSemicolon]⟩
  | cons t d => exact ⟨t, _, rfl, (h.first t rfl).2⟩

-- ---------------------------------------------------------------------------
-- Around the declaration
-- ---------------------------------------------------------------------------

section

variable {a b d : List Token} {semicolon left right eof : Token} {s? : Option Stmt}
  {complaints : List Report}

/-- In a program. -/
theorem program_of_settles (hD : Damage d) (hSettles : Settles d semicolon eof s? complaints)
    (hA : Flawless a eof) (hB : Flawless b eof) (hSemicolon : semicolon.kind = .semicolon)
    (hEof : eof.kind = .eof) :
    program (a ++ (d ++ semicolon :: (b ++ [eof]))) =
      { statements := statementsOf a eof ++ (s?.toList ++ statementsOf b eof)
        reports := complaints.map (·.moved b.length)
        rest := [eof] } := by
  have hEnd : Next (· ≠ .elseKw) [eof] := ⟨eof, [], rfl, by simp [hEof]⟩
  have hNext : Next (· ≠ .elseKw) (b ++ [eof]) := next_of_tree_append (hB.tree hEof) hEnd
  obtain ⟨t, tail, ht, hr, hTokens, -, hDeclared⟩ :=
    hSettles.declared (b ++ [eof]) b.length hNext (by simp)
  rw [program_of_tree_append (hA.tree hEof) (hD.next hSemicolon _), hTokens,
    program_cons hDeclared, hB.program_eq hEof]
  simp [Program.prepend]

/-- In a block. -/
theorem program_block_of_settles (hD : Damage d) (hBrace : ∀ t ∈ d, t.kind ≠ .rightBrace)
    (hSettles : Settles d semicolon eof s? complaints)
    (hA : Flawless a eof) (hB : Flawless b eof) (hSemicolon : semicolon.kind = .semicolon)
    (hLeft : left.kind = .leftBrace) (hRight : right.kind = .rightBrace)
    (hEof : eof.kind = .eof) :
    program (left :: (a ++ (d ++ semicolon :: (b ++ [right, eof])))) =
      { statements := [.block (statementsOf a eof ++ (s?.toList ++ statementsOf b eof))]
        reports := complaints.map (·.moved (b.length + 1))
        rest := [eof] } := by
  have hClose : Next (· ≠ .elseKw) [right, eof] := ⟨right, [eof], rfl, by simp [hRight]⟩
  have hNext : Next (· ≠ .elseKw) (b ++ [right, eof]) :=
    next_of_tree_append (hB.tree hEof) hClose
  -- from the closing brace backwards
  have hEnd : block [right, eof] = .done [] [eof] [] (shorter_tail right [eof]) := by
    rw [block, if_pos hRight]
  obtain ⟨hb, hBlock⟩ := block_of_tree_append (hB.tree hEof) hClose hEnd
  obtain ⟨t, tail, ht, hr, hTokens, hFirst, hDeclared⟩ :=
    hSettles.declared (b ++ [right, eof]) (b.length + 1) hNext (by simp)
  have hOpen : t.kind ≠ .rightBrace := by
    rcases hFirst with hMem | hKind
    · exact hBrace t (List.mem_of_mem_head? hMem)
    · simp [hKind]
  obtain ⟨hd, hDamage⟩ : ∃ h, block (d ++ semicolon :: (b ++ [right, eof])) =
      .done (s?.toList ++ (statementsOf b eof ++ [])) [eof]
        (complaints.map (·.moved (b.length + 1)) ++ []) h := by
    rw [hTokens]
    exact ⟨_, block_cons hOpen hDeclared hBlock⟩
  obtain ⟨ha, hBody⟩ :=
    block_of_tree_append (hA.tree hEof) (hD.next hSemicolon (b ++ [right, eof])) hDamage
  obtain ⟨h, hWhole⟩ := declaration_of_block hLeft (by simp [hLeft]) hBody
  rw [program_cons hWhole, program, dif_pos hEof]
  simp [Program.prepend]

end

/--
A bad declaration that a semicolon ends harms only itself: wherever it stands
between statements that are read without a complaint, it yields the same
statement or none, every complaint is about one of its own tokens, and the
statements around it are read as if it were not there.
-/
theorem damage_confined (d : List Token) (semicolon left right eof : Token) (hD : Damage d)
    (hSemicolon : semicolon.kind = .semicolon) (hLeft : left.kind = .leftBrace)
    (hRight : right.kind = .rightBrace) (hEof : eof.kind = .eof) :
    ∃ s? : Option Stmt, ∃ complaints : List Report,
      (∀ r ∈ complaints, r.In (d ++ [semicolon]) [eof]) ∧
      ∀ a b, Flawless a eof → Flawless b eof →
        program (a ++ (d ++ semicolon :: (b ++ [eof]))) =
          { statements := statementsOf a eof ++ (s?.toList ++ statementsOf b eof)
            reports := complaints.map (·.moved b.length)
            rest := [eof] } ∧
        ((∀ t ∈ d, t.kind ≠ .rightBrace) →
          program (left :: (a ++ (d ++ semicolon :: (b ++ [right, eof])))) =
            { statements := [.block (statementsOf a eof ++ (s?.toList ++ statementsOf b eof))]
              reports := complaints.map (·.moved (b.length + 1))
              rest := [eof] }) := by
  obtain ⟨s?, complaints, hSettles⟩ := hD.settles hSemicolon hEof
  refine ⟨s?, complaints, hSettles.about, ?_⟩
  intro a b hA hB
  refine ⟨program_of_settles hD hSettles hA hB hSemicolon hEof, ?_⟩
  intro hBrace
  exact program_block_of_settles hD hBrace hSettles hA hB hSemicolon hLeft hRight hEof

/-- `if ( +` -/
def brokenIf : List Token := [word .ifKw "if", word .leftParen "(", word .plus "+"]

/-- `print a;` -/
def printA : List Token := [word .printKw "print", word .identifier "a", word .semicolon ";"]

/-- Both complaints of `print a; if ( + ; print a;` are about the `if`, in a block as well. -/
theorem damage_confined_condition :
    Damage brokenIf ∧ Flawless printA (word .eof "") ∧
      program (printA ++ (brokenIf ++ word .semicolon ";" :: (printA ++ [word .eof ""]))) =
        { statements := [.print (.variable (word .identifier "a")),
            .print (.variable (word .identifier "a"))]
          reports := [⟨word .plus "+", 6, .noLeftOperand⟩,
            ⟨word .semicolon ";", 5, .noExpression⟩]
          rest := [word .eof ""] } ∧
      program (word .leftBrace "\x7b" :: (printA ++ (brokenIf ++ word .semicolon ";" ::
          (printA ++ [word .rightBrace "\x7d", word .eof ""])))) =
        { statements := [.block [.print (.variable (word .identifier "a")),
            .print (.variable (word .identifier "a"))]]
          reports := [⟨word .plus "+", 7, .noLeftOperand⟩,
            ⟨word .semicolon ";", 6, .noExpression⟩]
          rest := [word .eof ""] } := by
  have hD : Damage brokenIf := ⟨⟨by decide, by decide⟩, by simp [brokenIf, word]⟩
  have hNil : Flawless [] (word .eof "") := ⟨by decide, by cbv⟩
  have hPrint : Flawless printA (word .eof "") := ⟨by decide, by cbv⟩
  have hStatements : statementsOf printA (word .eof "") =
      [.print (.variable (word .identifier "a"))] := by cbv
  obtain ⟨s?, complaints, -, hAround⟩ := damage_confined brokenIf (word .semicolon ";")
    (word .leftBrace "\x7b") (word .rightBrace "\x7d") (word .eof "") hD rfl rfl rfl rfl
  obtain ⟨hAlone, -⟩ := hAround [] [] hNil hNil
  obtain ⟨hProgram, hBlock⟩ := hAround printA printA hPrint hPrint
  have hRead : program ([] ++ (brokenIf ++ word .semicolon ";" :: ([] ++ [word .eof ""]))) =
      { statements := []
        reports := [⟨word .plus "+", 3, .noLeftOperand⟩, ⟨word .semicolon ";", 2, .noExpression⟩]
        rest := [word .eof ""] } := by cbv
  have hEmpty : statementsOf [] (word .eof "") = [] := by cbv
  rw [hRead, hEmpty] at hAlone
  simp only [Program.mk.injEq, List.nil_append, List.append_nil, List.length_nil] at hAlone
  obtain ⟨hNone, hComplaints, -⟩ := hAlone
  have hSame : complaints.map (·.moved 0) = complaints := List.map_id complaints
  rw [hSame] at hComplaints
  refine ⟨hD, hPrint, ?_, ?_⟩
  · rw [hProgram, hStatements, ← hNone, ← hComplaints]
    rfl
  · rw [hBlock (by decide), hStatements, ← hNone, ← hComplaints]
    rfl

end Scriptlet.Parse
