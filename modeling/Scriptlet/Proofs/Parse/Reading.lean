import Scriptlet.Proofs.Parse.Bounds

/-!
# Scriptlet — reading without a complaint

A step reads a value if it is done with it and nothing was complained about.
Reading composes: a composed step reads a value exactly if its parts do, one
after the other. From this follows for every rule of the grammar what it reads,
as one equivalence in terms of the rules that it calls. Nothing that is proved
about reading needs to look into the rules again.

## Results

* `Step.Reads`              — done with a value and without a complaint.
* `reads_andThen`, `reads_bind`, `reads_map`, `reads_within`, `reads_expect` — composition.
* `reads_assignment`, `reads_level`, `reads_chain`, `reads_unary`, `reads_primary` — expressions.
* `reads_statement`, `reads_block`, `reads_declaration` — statements.
-/

namespace Scriptlet.Parse

-- ---------------------------------------------------------------------------
-- Composition
-- ---------------------------------------------------------------------------

namespace Step

variable {α β : Type} {tokens part rest : List Token}

/-- A step that is done with a value, left `rest` and complained about nothing. -/
def Reads (s : Step α tokens) (value : α) (rest : List Token) : Prop :=
  ∃ h, s = .done value rest [] h

theorem Reads.shorter {s : Step α tokens} {v : α} (h : s.Reads v rest) : Shorter rest tokens :=
  h.1

theorem reads_done {v w : α} {after : List Token} {reports : List Report}
    {h : Shorter after tokens} :
    (done v after reports h).Reads w rest ↔ v = w ∧ after = rest ∧ reports = [] := by
  constructor
  · intro h
    obtain ⟨_, hDone⟩ := h
    simp only [done.injEq] at hDone
    exact hDone
  · intro h
    obtain ⟨rfl, rfl, rfl⟩ := h
    exact ⟨h, rfl⟩

theorem reads_self {v : α} {h : Shorter rest tokens} : (done v rest [] h).Reads v rest := ⟨h, rfl⟩

theorem not_reads_abandoned {v : α} {after : List Token} {reports : List Report}
    {h : after <:+ tokens} : ¬(abandoned after reports h : Step α tokens).Reads v rest := by
  intro h
  obtain ⟨_, hDone⟩ := h
  cases hDone

theorem not_reads_ranOff {v : α} {reports : List Report} :
    ¬(ranOff reports : Step α tokens).Reads v rest := by
  intro h
  obtain ⟨_, hDone⟩ := h
  cases hDone

theorem reads_within {s : Step α part} {h : part <:+ tokens} {v : α} :
    (s.within h).Reads v rest ↔ s.Reads v rest := by
  cases s with
  | done w after reports hr => rw [within, reads_done, reads_done]
  | abandoned after reports hr => exact iff_of_false not_reads_abandoned not_reads_abandoned
  | ranOff reports => exact iff_of_false not_reads_ranOff not_reads_ranOff

theorem reads_prepend {s : Step α tokens} {earlier : List Report} {v : α} :
    (s.prepend earlier).Reads v rest ↔ earlier = [] ∧ s.Reads v rest := by
  cases s with
  | done w after reports hr =>
    rw [prepend, reads_done, reads_done, List.append_eq_nil_iff]
    constructor
    · intro h
      obtain ⟨hv, ha, hEarlier, hReports⟩ := h
      exact ⟨hEarlier, hv, ha, hReports⟩
    · intro h
      obtain ⟨hEarlier, hv, ha, hReports⟩ := h
      exact ⟨hv, ha, hEarlier, hReports⟩
  | abandoned after reports hr =>
    exact iff_of_false not_reads_abandoned fun h => not_reads_abandoned h.2
  | ranOff reports => exact iff_of_false not_reads_ranOff fun h => not_reads_ranOff h.2

theorem reads_map {s : Step α tokens} {f : α → β} {w : β} :
    (s.map f).Reads w rest ↔ ∃ v, s.Reads v rest ∧ f v = w := by
  cases s with
  | done v after reports hr =>
    rw [map, reads_done]
    constructor
    · intro h
      obtain ⟨hv, rfl, rfl⟩ := h
      exact ⟨v, ⟨hr, rfl⟩, hv⟩
    · intro h
      obtain ⟨v', hv', hw⟩ := h
      obtain ⟨rfl, rfl, rfl⟩ := reads_done.mp hv'
      exact ⟨hw, rfl, rfl⟩
  | abandoned after reports hr =>
    refine iff_of_false not_reads_abandoned ?_
    intro h
    obtain ⟨v, hv, -⟩ := h
    exact not_reads_abandoned hv
  | ranOff reports =>
    refine iff_of_false not_reads_ranOff ?_
    intro h
    obtain ⟨v, hv, -⟩ := h
    exact not_reads_ranOff hv

/-- A step after another reads what it reads behind what the other has read. -/
theorem reads_andThen {first : Step α tokens}
    {next : (value : α) → (rest : List Token) → Shorter rest tokens → Step β tokens} {w : β} :
    (first.andThen next).Reads w rest ↔
      ∃ v middle h, first.Reads v middle ∧ (next v middle h).Reads w rest := by
  cases first with
  | done v middle reports hr =>
    rw [andThen, reads_prepend]
    constructor
    · intro h
      obtain ⟨rfl, hNext⟩ := h
      exact ⟨v, middle, hr, ⟨hr, rfl⟩, hNext⟩
    · intro hParts
      obtain ⟨v', middle', h, hv', hNext⟩ := hParts
      obtain ⟨rfl, rfl, rfl⟩ := reads_done.mp hv'
      exact ⟨rfl, hNext⟩
  | abandoned after reports hr =>
    refine iff_of_false not_reads_abandoned ?_
    intro hParts
    obtain ⟨v, middle, h, hv, -⟩ := hParts
    exact not_reads_abandoned hv
  | ranOff reports =>
    refine iff_of_false not_reads_ranOff ?_
    intro hParts
    obtain ⟨v, middle, h, hv, -⟩ := hParts
    exact not_reads_ranOff hv

theorem reads_bind {first : Step α tokens}
    {next : (value : α) → (rest : List Token) → Shorter rest tokens → Step β rest} {w : β} :
    (first.bind next).Reads w rest ↔
      ∃ v middle h, first.Reads v middle ∧ (next v middle h).Reads w rest := by
  rw [bind, reads_andThen]
  constructor
  · intro hParts
    obtain ⟨v, middle, h, hv, hNext⟩ := hParts
    exact ⟨v, middle, h, hv, reads_within.mp hNext⟩
  · intro hParts
    obtain ⟨v, middle, h, hv, hNext⟩ := hParts
    exact ⟨v, middle, h, hv, reads_within.mpr hNext⟩

end Step

open Step

variable {tokens rest : List Token}

theorem not_reads_abandon {α : Type} {complaint : Complaint} {v : α} :
    ¬(abandon complaint tokens : Step α tokens).Reads v rest := by
  cases tokens with
  | nil => exact not_reads_ranOff
  | cons t after => exact not_reads_abandoned

theorem is_iff {t : Token} {kind : TokenKind} (hKind : kind ≠ .eof) :
    t.is kind = true ↔ t.kind = kind := by
  simp only [Token.is, Token.isEof, Bool.and_eq_true, Bool.not_eq_true', beq_eq_false_iff_ne,
    beq_iff_eq]
  constructor
  · exact And.right
  · rintro rfl
    exact ⟨hKind, rfl⟩

theorem reads_expect {kind : TokenKind} (hKind : kind ≠ .eof) {complaint : Complaint}
    {t : Token} :
    (expect kind complaint tokens).Reads t rest ↔ tokens = t :: rest ∧ t.kind = kind := by
  cases tokens with
  | nil => simp [expect, not_reads_ranOff]
  | cons u after =>
    rw [expect]
    split
    · next h =>
      rw [is_iff hKind] at h
      rw [reads_done]
      constructor
      · intro h
        obtain ⟨rfl, rfl, -⟩ := h
        exact ⟨rfl, h⟩
      · intro h
        obtain ⟨hEq, -⟩ := h
        cases hEq
        exact ⟨rfl, rfl, rfl⟩
    · next h =>
      rw [is_iff hKind] at h
      refine iff_of_false not_reads_abandon ?_
      intro h
      obtain ⟨hEq, ht⟩ := h
      cases hEq
      exact h ht

/-- A step and the token of a kind behind what it reads. -/
theorem reads_closed {α β : Type} {kind : TokenKind} (hKind : kind ≠ .eof)
    {complaint : Complaint} {first : Step α tokens} {f : α → Token → β} {w : β} :
    (first.bind fun v rest _ => (expect kind complaint rest).map (f v)).Reads w rest ↔
      ∃ v t, first.Reads v (t :: rest) ∧ t.kind = kind ∧ f v t = w := by
  rw [reads_bind]
  constructor
  · intro hParts
    obtain ⟨v, middle, h, hv, hClose⟩ := hParts
    obtain ⟨t, ht, rfl⟩ := reads_map.mp hClose
    obtain ⟨rfl, hk⟩ := (reads_expect hKind).mp ht
    exact ⟨v, t, hv, hk, rfl⟩
  · intro h
    obtain ⟨v, t, hv, hk, rfl⟩ := h
    exact ⟨v, t :: rest, hv.shorter, hv, reads_map.mpr ⟨t, (reads_expect hKind).mpr ⟨rfl, hk⟩, rfl⟩⟩

/-- What fails where there is no token is settled by the first one. -/
theorem iff_exists_cons {p : List Token → Prop} {q : Token → List Token → Prop} (hNil : ¬p [])
    (hCons : ∀ t after, tokens = t :: after → (p tokens ↔ q t after)) :
    p tokens ↔ ∃ t after, tokens = t :: after ∧ q t after := by
  constructor
  · intro hp
    cases tokens with
    | nil => exact absurd hp hNil
    | cons t after =>
      have hq : q t after := (hCons t after rfl).mp hp
      exact ⟨t, after, rfl, hq⟩
  · intro h
    obtain ⟨t, after, hTokens, hq⟩ := h
    exact (hCons t after hTokens).mpr hq

-- ---------------------------------------------------------------------------
-- Expressions
-- ---------------------------------------------------------------------------

theorem reads_expression {e : Expr} :
    (expression tokens).Reads e rest ↔ (assignment tokens).Reads e rest := by
  rw [expression]

/-- An assignment, or an expression that no equals sign follows. -/
theorem reads_assignment {e : Expr} :
    (assignment tokens).Reads e rest ↔
      ∃ target t after, (level .or tokens).Reads target (t :: after) ∧
        ((t.kind = .equal ∧ ∃ value, (assignment after).Reads value rest ∧
            assignTo? target value = some e) ∨
          (t.kind ≠ .equal ∧ target = e ∧ t :: after = rest)) := by
  rw [assignment, reads_andThen]
  constructor
  · intro hParts
    obtain ⟨target, middle, h, hTarget, hNext⟩ := hParts
    cases middle with
    | nil => exact absurd hNext not_reads_ranOff
    | cons t after =>
      refine ⟨target, t, after, hTarget, ?_⟩
      dsimp only at hNext
      split at hNext
      · next hEqual =>
        obtain ⟨value, more, hr, hValue, hEnd⟩ := reads_andThen.mp (reads_within.mp hNext)
        split at hEnd
        · next e' hAssign =>
          obtain ⟨rfl, rfl, -⟩ := reads_done.mp hEnd
          exact .inl ⟨hEqual, value, hValue, hAssign⟩
        · simp [reads_done] at hEnd
      · next hEqual =>
        obtain ⟨rfl, rfl, -⟩ := reads_done.mp hNext
        exact .inr ⟨hEqual, rfl, rfl⟩
  · intro h
    obtain ⟨target, t, after, hTarget, hNext⟩ := h
    refine ⟨target, t :: after, hTarget.shorter, hTarget, ?_⟩
    dsimp only
    rcases hNext with ⟨hEqual, value, hValue, hAssign⟩ | ⟨hEqual, rfl, rfl⟩
    · rw [if_pos hEqual, reads_within, reads_andThen]
      refine ⟨value, rest, hValue.shorter, hValue, ?_⟩
      rw [hAssign, reads_done]
      exact ⟨rfl, rfl, rfl⟩
    · rw [if_neg hEqual, reads_done]
      exact ⟨rfl, rfl, rfl⟩

theorem reads_level {l : Level} {e : Expr} :
    (level l tokens).Reads e rest ↔
      ∃ left middle, ∃ h : Shorter middle tokens,
        (operand l tokens).Reads left middle ∧ (chain l left middle h).Reads e rest := by
  rw [level, reads_andThen]

theorem reads_operand {l : Level} {e : Expr} :
    (operand l tokens).Reads e rest ↔ (l.below.run tokens).Reads e rest := by
  rw [operand_eq_run_below]

/-- A chain takes up another operator of its level, or ends in front of any other token. -/
theorem reads_chain {l : Level} {left e : Expr} {middle : List Token}
    {h : Shorter middle tokens} :
    (chain l left middle h).Reads e rest ↔
      ∃ t after, middle = t :: after ∧
        ((t.kind ∈ l.operators ∧ ∃ right more, ∃ hr : Shorter more after,
            (operand l after).Reads right more ∧
              (chain l (l.node left t right) more hr).Reads e rest) ∨
          (t.kind ∉ l.operators ∧ left = e ∧ t :: after = rest)) := by
  cases middle with
  | nil =>
    rw [chain]
    refine iff_of_false not_reads_ranOff ?_
    intro h
    obtain ⟨t, after, hEq, -⟩ := h
    cases hEq
  | cons t after =>
    rw [chain]
    simp only [List.contains_iff_mem]
    constructor
    · intro hReads
      refine ⟨t, after, rfl, ?_⟩
      split at hReads
      · next hOp =>
        obtain ⟨right, more, hr, hRight, hMore⟩ := reads_andThen.mp (reads_within.mp hReads)
        exact .inl ⟨hOp, right, more, hr, hRight, hMore⟩
      · next hOp =>
        obtain ⟨rfl, rfl, -⟩ := reads_done.mp hReads
        exact .inr ⟨hOp, rfl, rfl⟩
    · intro h
      obtain ⟨t', after', hEq, hNext⟩ := h
      cases hEq
      rcases hNext with ⟨hOp, right, more, hr, hRight, hMore⟩ | ⟨hOp, rfl, rfl⟩
      · rw [if_pos hOp, reads_within, reads_andThen]
        exact ⟨right, more, hr, hRight, hMore⟩
      · rw [if_neg hOp, reads_done]
        exact ⟨rfl, rfl, rfl⟩

/-- A unary operator with its operand, or an expression without one. -/
theorem reads_unary {e : Expr} :
    (unary tokens).Reads e rest ↔
      ∃ t after, tokens = t :: after ∧
        (((t.kind = .bang ∨ t.kind = .minus) ∧
            ∃ operand, (unary after).Reads operand rest ∧ .unary t operand = e) ∨
          (¬(t.kind = .bang ∨ t.kind = .minus) ∧ (primary tokens).Reads e rest)) := by
  refine iff_exists_cons (p := fun tokens => (unary tokens).Reads e rest) ?_ ?_
  · rw [unary]
    exact not_reads_ranOff
  · intro t after hTokens
    subst hTokens
    rw [unary]
    constructor
    · intro hReads
      split at hReads
      · next hOp =>
        have hOperand := reads_map.mp (reads_within.mp hReads)
        exact .inl ⟨hOp, hOperand⟩
      · next hOp => exact .inr ⟨hOp, hReads⟩
    · intro hNext
      rcases hNext with ⟨hOp, hOperand⟩ | ⟨hOp, hPrimary⟩
      · rw [if_pos hOp, reads_within]
        exact reads_map.mpr hOperand
      · rw [if_neg hOp]
        exact hPrimary

/-- A token that is an expression by itself, or a group. -/
theorem reads_primary {e : Expr} :
    (primary tokens).Reads e rest ↔
      ∃ t after, tokens = t :: after ∧
        ((∃ value, literalOf? t = some value ∧ .literal value = e ∧ after = rest) ∨
          (t.kind = .identifier ∧ .variable t = e ∧ after = rest) ∨
          (t.kind = .leftParen ∧ ∃ inner close, (expression after).Reads inner (close :: rest) ∧
            close.kind = .rightParen ∧ .grouping inner = e)) := by
  refine iff_exists_cons (p := fun tokens => (primary tokens).Reads e rest) ?_ ?_
  · rw [primary]
    exact not_reads_ranOff
  · intro t after hTokens
    subst hTokens
    rw [primary]
    constructor
    · intro hReads
      split at hReads
      · next value hLiteral =>
        obtain ⟨rfl, rfl, -⟩ := reads_done.mp hReads
        exact .inl ⟨value, hLiteral, rfl, rfl⟩
      · split at hReads
        · next hName =>
          obtain ⟨rfl, rfl, -⟩ := reads_done.mp hReads
          exact .inr (.inl ⟨hName, rfl, rfl⟩)
        · split at hReads
          · next hParen =>
            obtain ⟨inner, close, hInner, hClose, rfl⟩ :=
              (reads_closed (by decide)).mp (reads_within.mp hReads)
            exact .inr (.inr ⟨hParen, inner, close, hInner, hClose, rfl⟩)
          · split at hReads
            · -- a missing operand is complained about, so nothing is read
              have hReports := (reads_prepend.mp (reads_within.mp hReads)).1
              simp at hReports
            · exact absurd hReads not_reads_abandon
    · intro hNext
      rcases hNext with ⟨value, hLiteral, rfl, rfl⟩ | ⟨hName, rfl, rfl⟩ |
        ⟨hParen, inner, close, hInner, hClose, rfl⟩
      · rw [hLiteral]
        exact reads_self
      · have hLiteral : literalOf? t = none := by simp [literalOf?, hName]
        rw [hLiteral]
        dsimp only
        rw [if_pos hName]
        exact reads_self
      · have hLiteral : literalOf? t = none := by simp [literalOf?, hParen]
        have hName : t.kind ≠ .identifier := by simp [hParen]
        rw [hLiteral]
        dsimp only
        rw [if_neg hName, if_pos hParen, reads_within]
        exact (reads_closed (by decide)).mpr ⟨inner, close, hInner, hClose, rfl⟩

end Scriptlet.Parse
