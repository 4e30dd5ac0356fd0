import Scriptlet.Proofs.Parse.Acceptance

/-!
# Scriptlet — declarations in front of others

Tokens that are a program by themselves are read as that program in front of
other tokens too, unless these start with an `else`: what stands behind them is
read as if it stood alone. The same holds in a block.

## Results

* `declaration_of_tree`     — a declaration in front of other tokens.
* `program_cons`, `block_cons` — the first declaration and the rest.
* `program_of_tree_append`  — a program in front of other tokens.
* `block_of_tree_append`    — a program in front of the rest of a block.
* `declaration_of_block`    — a block as a declaration.
-/

namespace Scriptlet.Parse

open Grammar Step

/-- A declaration is read up to its end, without a complaint. -/
theorem declaration_of_tree {ts rest : List Token} {s : Stmt} (h : StmtTree .declaration ts s)
    (hNext : Next (· ≠ .elseKw) rest) :
    ∃ t tail, ∃ ht : t.kind ≠ .eof, ∃ hr, ts ++ rest = t :: tail ∧ t.kind ≠ .rightBrace ∧
      declaration t tail ht = .done (some s) rest [] hr := by
  obtain ⟨t, tail, ht, hEq, hBrace, hr, hDone⟩ := reads_of_stmtTree h hNext
  cases hFirst : declaration t tail ht with
  | ranOff reports =>
    rw [hFirst] at hDone
    cases hDone
  | done s? after reports hAfter =>
    rw [hFirst] at hDone
    cases hDone
    exact ⟨t, tail, ht, hr, hEq, hBrace, hFirst⟩

/-- No declaration starts with an `else`, so none follows if there are none in front of it. -/
theorem next_parts_append {parts : List (List Token × Stmt)} {rest : List Token}
    (hParts : ∀ part ∈ parts, StmtTree .declaration part.1 part.2)
    (hNext : Next (· ≠ .elseKw) rest) :
    Next (· ≠ .elseKw) (parts.flatMap Prod.fst ++ rest) := by
  obtain ⟨close, after, rfl, hClose⟩ := hNext
  exact next_parts hParts hClose after

theorem next_of_tree_append {a rest : List Token} {statements : List Stmt}
    (h : ProgramTree a statements) (hNext : Next (· ≠ .elseKw) rest) :
    Next (· ≠ .elseKw) (a ++ rest) := by
  obtain ⟨parts, hParts, rfl, rfl⟩ := h
  exact next_parts_append hParts hNext

-- ---------------------------------------------------------------------------
-- Programs
-- ---------------------------------------------------------------------------

/-- A program whose first declaration was read, and the rest of it. -/
theorem program_cons {t : Token} {tail rest : List Token} {ht : t.kind ≠ .eof} {s? : Option Stmt}
    {reports : List Report} {hr : Shorter rest (t :: tail)}
    (hFirst : declaration t tail ht = .done s? rest reports hr) :
    program (t :: tail) = (program rest).prepend s? reports := by
  rw [program, dif_neg ht, hFirst]

/-- The rest is read as if it stood alone. -/
theorem program_of_tree_append {a rest : List Token} {statements : List Stmt}
    (h : ProgramTree a statements) (hNext : Next (· ≠ .elseKw) rest) :
    program (a ++ rest) =
      { program rest with statements := statements ++ (program rest).statements } := by
  obtain ⟨parts, hParts, rfl, rfl⟩ := h
  induction parts with
  | nil => rfl
  | cons part parts ih =>
    obtain ⟨hPart, hTail⟩ := List.forall_mem_cons.mp hParts
    obtain ⟨t, tail, ht, hr, hEq, -, hDone⟩ :=
      declaration_of_tree hPart (next_parts_append hTail hNext)
    rw [List.flatMap_cons, List.append_assoc, hEq, program_cons hDone, ih hTail]
    rfl

-- ---------------------------------------------------------------------------
-- Blocks
-- ---------------------------------------------------------------------------

/-- A block whose first declaration was read, and the rest of it. -/
theorem block_cons {t : Token} {tail rest after : List Token} {ht : t.kind ≠ .eof}
    {s? : Option Stmt} {body : List Stmt} {reports later : List Report}
    {hr : Shorter rest (t :: tail)} {hAfter : Shorter after rest} (hBrace : t.kind ≠ .rightBrace)
    (hFirst : declaration t tail ht = .done s? rest reports hr)
    (hRest : block rest = .done body after later hAfter) :
    block (t :: tail) =
      .done (s?.toList ++ body) after (reports ++ later) (hAfter.trans_suffix hr.1) := by
  rw [block, if_neg hBrace, dif_neg ht, hFirst]
  show (((block rest).map _).within hr.1).prepend reports = _
  rw [hRest]
  rfl

/-- The rest of a block is read as if it began there. -/
theorem block_of_tree_append {a rest after : List Token} {statements body : List Stmt}
    {reports : List Report} {hRest : Shorter after rest} (h : ProgramTree a statements)
    (hNext : Next (· ≠ .elseKw) rest) (hBlock : block rest = .done body after reports hRest) :
    ∃ h, block (a ++ rest) = .done (statements ++ body) after reports h := by
  obtain ⟨parts, hParts, rfl, rfl⟩ := h
  induction parts with
  | nil => exact ⟨hRest, hBlock⟩
  | cons part parts ih =>
    obtain ⟨hPart, hTail⟩ := List.forall_mem_cons.mp hParts
    obtain ⟨t, tail, ht, hr, hEq, hBrace, hDone⟩ :=
      declaration_of_tree hPart (next_parts_append hTail hNext)
    obtain ⟨hMore, hMoreEq⟩ := ih hTail
    have hAll := block_cons hBrace hDone hMoreEq
    rw [List.flatMap_cons, List.append_assoc, hEq]
    exact ⟨_, hAll⟩

/-- A block as a declaration, whatever was complained about in it. -/
theorem declaration_of_block {left : Token} {tail after : List Token} {body : List Stmt}
    {reports : List Report} {hAfter : Shorter after tail} (hLeft : left.kind = .leftBrace)
    (ht : left.kind ≠ .eof) (hBlock : block tail = .done body after reports hAfter) :
    ∃ h, declaration left tail ht = .done (some (.block body)) after reports h := by
  have hVar : left.kind ≠ .varKw := by simp [hLeft]
  have hStatement : statement (left :: tail) =
      ((block tail).map .block).within (List.suffix_cons left tail) := by
    rw [statement]
    simp [hLeft]
  rw [declaration, if_neg hVar, hStatement, hBlock]
  exact ⟨_, rfl⟩

end Scriptlet.Parse
