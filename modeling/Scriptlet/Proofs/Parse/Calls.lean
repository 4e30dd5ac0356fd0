import Scriptlet.Parse.Cursor
import Scriptlet.Proofs.Parse.Bounds

/-!
# Scriptlet — calls in any order

Every rule of the grammar and every helper below it can be called from a cursor,
in any order, whatever the calls before it did. A call only ever moves the cursor
over tokens that do not end the file. From this it follows that no sequence of
calls runs off a list that holds an end of file, and that the cursor never
passes the first one.

Only a parse of a declaration or of a whole program contains what it gives up;
the first of them moves on wherever there is something to move over, and the
second stops at the first end of file.

## Results

* `Call`, `Cursor.perform`, `Cursor.after` — calls and sequences of them.
* `Cursor.Passes`           — what a call does to a cursor.
* `contained_perform`       — every call does only that, and none runs off.
* `Within`, `within_after`  — what holds of a cursor after any calls.
* `calls_stay_within_file`  — what holds of every call in every sequence.
-/

namespace Scriptlet.Parse

-- ---------------------------------------------------------------------------
-- Calls
-- ---------------------------------------------------------------------------

/-- What can be called from a cursor: the rules of the grammar and the helpers below them. -/
inductive Call where
  | rule (r : Rule)
  | varDeclaration | statement | expressionStatement | printStatement
  | ifStatement | whileStatement | forStatement
  | block | declaration | parse
  | peek | previous | atEnd
  | check (kind : TokenKind)
  | accept (kinds : List TokenKind)
  | consume (kind : TokenKind) (complaint : String)
  | advance | synchronize

namespace Outcome

variable {α : Type}

/-- How a rule ended, whatever it was done with. -/
def ending : Outcome α → Outcome Unit
  | done _ => done ()
  | abandoned => abandoned
  | ranOff => ranOff

/-- How a look at a token ended. -/
def ofLook : Option α → Outcome Unit
  | some _ => done ()
  | none => ranOff

end Outcome

namespace Cursor

/-- Performs a call. A look at a token that is not there runs off the list. -/
def perform (c : Cursor) : Call → Outcome Unit × Cursor
  | .rule r => let (o, c) := c.run r.run; (o.ending, c)
  | .varDeclaration => let (o, c) := c.run Parse.varDeclaration; (o.ending, c)
  | .statement => let (o, c) := c.run Parse.statement; (o.ending, c)
  | .expressionStatement => let (o, c) := c.run Parse.expressionStatement; (o.ending, c)
  | .printStatement => let (o, c) := c.run Parse.printStatement; (o.ending, c)
  | .ifStatement => let (o, c) := c.run Parse.ifStatement; (o.ending, c)
  | .whileStatement => let (o, c) := c.run Parse.whileStatement; (o.ending, c)
  | .forStatement => let (o, c) := c.run Parse.forStatement; (o.ending, c)
  | .block => let (o, c) := c.run Parse.block; (o.ending, c)
  | .declaration => let (o, c) := c.declaration; (o.ending, c)
  | .parse => let (o, c) := c.program; (o.ending, c)
  | .peek => (.ofLook c.peek?, c)
  | .previous => (.ofLook c.previous?, c)
  | .atEnd => (.ofLook c.atEnd?, c)
  | .check kind => (.ofLook (c.check? kind), c)
  | .accept [] => (.done (), c)
  | .accept (kind :: kinds) => (.ofLook c.peek?, (c.accept (kind :: kinds)).2)
  | .consume kind complaint => let (o, c) := c.consume kind complaint; (o.ending, c)
  | .advance => (.ofLook (c.peek?.bind fun _ => c.advance.previous?), c.advance)
  | .synchronize => c.synchronize

/-- The cursor after calls. -/
def after (c : Cursor) (calls : List Call) : Cursor :=
  calls.foldl (fun c call => (c.perform call).2) c

-- ---------------------------------------------------------------------------
-- Passing over tokens
-- ---------------------------------------------------------------------------

/-- A cursor passed over tokens none of which ends the file. -/
def Passes (c c' : Cursor) : Prop :=
  ∃ read, read ++ c'.rest = c.rest ∧ c'.behind = read.reverse ++ c.behind ∧
    ∀ t ∈ read, t.kind ≠ .eof

theorem passes_refl (c : Cursor) : c.Passes c := ⟨[], rfl, rfl, by simp⟩

theorem passes_moveTo {c : Cursor} {rest : List Token} (h : ReadUpTo rest c.rest) :
    c.Passes (c.moveTo rest) := by
  obtain ⟨read, hRest, hRead⟩ := h
  refine ⟨read, hRest, ?_, hRead⟩
  show (c.rest.take (c.rest.length - rest.length)).reverse ++ c.behind = read.reverse ++ c.behind
  have hTake : c.rest.take (c.rest.length - rest.length) = read := by
    rw [← hRest, List.length_append, Nat.add_sub_cancel]
    exact List.take_left
  rw [hTake]

theorem passes_addReports {c c' : Cursor} (h : c.Passes c') (reports : List Report) :
    c.Passes (c'.addReports reports) := h

theorem passes_advance (c : Cursor) : c.Passes c.advance := by
  unfold advance
  split
  · exact passes_refl c
  · next t rest hRest =>
    by_cases hEof : t.isEof
    · rw [if_pos hEof]
      exact passes_refl c
    · rw [if_neg hEof]
      refine ⟨[t], hRest.symm, rfl, ?_⟩
      intro u hu
      rw [List.mem_singleton.mp hu]
      simpa [Token.isEof] using hEof

/-- Whether a token in front of the cursor ends the file. -/
def HasEof (c : Cursor) : Prop := ∃ t ∈ c.rest, t.kind = .eof

theorem HasEof.rest_ne_nil {c : Cursor} (h : c.HasEof) : c.rest ≠ [] := by
  obtain ⟨t, ht, -⟩ := h
  exact List.ne_nil_of_mem ht

/-- What does not end the file can be passed over without losing its end. -/
theorem HasEof.passes {c c' : Cursor} (h : c.HasEof) (hPasses : c.Passes c') : c'.HasEof := by
  obtain ⟨t, ht, hEof⟩ := h
  obtain ⟨read, hRest, -, hRead⟩ := hPasses
  rw [← hRest] at ht
  rcases List.mem_append.mp ht with hMem | hMem
  · exact absurd hEof (hRead t hMem)
  · exact ⟨t, hMem, hEof⟩

-- ---------------------------------------------------------------------------
-- One call
-- ---------------------------------------------------------------------------

/-- A call that does not run off and passes over nothing that ends the file. -/
def Contained (c : Cursor) (result : Outcome Unit × Cursor) : Prop :=
  result.1 ≠ .ranOff ∧ c.Passes result.2

theorem contained_run {α : Type} {c : Cursor} (hEof : c.HasEof)
    {rule : (tokens : List Token) → Step α tokens} (h : (rule c.rest).WithinFile) :
    c.Contained ((c.run rule).1.ending, (c.run rule).2) := by
  unfold run
  cases hStep : rule c.rest with
  | done value rest reports hr =>
    rw [hStep] at h
    exact ⟨by simp [Outcome.ending], passes_addReports (passes_moveTo h) reports⟩
  | abandoned rest reports hr =>
    rw [hStep] at h
    exact ⟨by simp [Outcome.ending], passes_addReports (passes_moveTo h.1) reports⟩
  | ranOff reports =>
    rw [hStep] at h
    obtain ⟨t, ht, hKind⟩ := hEof
    exact absurd hKind (h t ht)

theorem contained_look {α : Type} {c c' : Cursor} {look : Option α} (hLook : look.isSome)
    (h : c.Passes c') : c.Contained (.ofLook look, c') := by
  refine ⟨?_, h⟩
  cases look with
  | none => cases hLook
  | some v => simp [Outcome.ofLook]

theorem isSome_peek? {c : Cursor} (h : c.HasEof) : c.peek?.isSome := by
  unfold peek?
  rw [List.isSome_head?]
  simpa using h.rest_ne_nil

/-- There is a token behind every cursor, since the last token stands in at the start. -/
theorem isSome_previous? {c : Cursor} (h : c.HasEof) : c.previous?.isSome := by
  unfold previous?
  have hLast : c.rest.getLast?.isSome := by
    rw [List.getLast?_isSome]
    exact h.rest_ne_nil
  cases c.behind.head? with
  | none => exact hLast
  | some t => rfl

theorem contained_accept {c : Cursor} (h : c.HasEof) (kinds : List TokenKind) :
    c.Contained (c.perform (.accept kinds)) := by
  cases kinds with
  | nil => exact ⟨by simp [perform], passes_refl c⟩
  | cons kind kinds =>
    refine contained_look (isSome_peek? h) ?_
    unfold accept
    split
    · exact passes_advance c
    · exact passes_refl c

theorem contained_synchronize {c : Cursor} (h : c.HasEof) : c.Contained c.synchronize := by
  unfold synchronize
  cases hSkip : Parse.synchronize c.rest with
  | none =>
    obtain ⟨t, ht, hKind⟩ := h
    exact absurd hKind (no_eof_of_synchronize hSkip t ht)
  | some rest =>
    exact ⟨by simp, passes_moveTo (readUpTo_of_synchronize hSkip)⟩

/-- The cursor moves by what a declaration in front of it reads or skips. -/
theorem contained_declaration {c : Cursor} (h : c.HasEof) :
    c.Contained (c.perform .declaration) ∧ (c.perform .declaration).1 ≠ .abandoned := by
  show c.Contained (c.declaration.1.ending, c.declaration.2) ∧
    c.declaration.1.ending ≠ .abandoned
  unfold declaration
  split
  · next hNil => exact absurd hNil h.rest_ne_nil
  · next t tail hRest =>
    split
    · next hKind =>
      -- at the end of the file a statement is read, and given up
      have hRun := contained_run h (withinFile_statement c.rest)
      cases hResult : c.run statement with
      | mk outcome after =>
        rw [hResult] at hRun
        cases outcome with
        | done s => exact ⟨hRun, by simp [Outcome.ending]⟩
        | abandoned => exact ⟨⟨by simp [Outcome.ending], hRun.2⟩, by simp [Outcome.ending]⟩
        | ranOff => exact absurd rfl hRun.1
    · next hKind =>
      have hWithin := @withinFile_declaration t tail hKind
      cases hDeclared : Parse.declaration t tail hKind with
      | done s? rest reports hr =>
        rw [hDeclared] at hWithin
        have hRead : ReadUpTo rest c.rest := hRest ▸ hWithin
        refine ⟨⟨by simp [Outcome.ending], ?_⟩, by simp [Outcome.ending]⟩
        exact passes_addReports (passes_moveTo hRead) reports
      | ranOff reports =>
        rw [hDeclared] at hWithin
        obtain ⟨u, hu, hEof⟩ := h
        rw [hRest] at hu
        exact absurd hEof (hWithin u hu)

theorem readUpTo_fromEof (tokens : List Token) : ReadUpTo (fromEof tokens) tokens := by
  refine ⟨tokens.takeWhile (·.kind != .eof), List.takeWhile_append_dropWhile, ?_⟩
  intro t ht
  have hAll := List.all_takeWhile (p := fun u : Token => u.kind != .eof) (l := tokens)
  simpa using List.all_eq_true.mp hAll t ht

theorem contained_program {c : Cursor} (h : c.HasEof) :
    c.Contained (c.perform .parse) ∧ (c.perform .parse).1 ≠ .abandoned ∧
      (c.perform .parse).2.rest = fromEof c.rest := by
  show c.Contained (c.program.1.ending, c.program.2) ∧ c.program.1.ending ≠ .abandoned ∧
    c.program.2.rest = fromEof c.rest
  obtain ⟨t, ht, hEof⟩ := h
  have hRest : (Parse.program c.rest).rest = fromEof c.rest := rest_program c.rest
  have hSome : (Parse.program c.rest).rest.isEmpty = false := by
    rw [hRest, List.isEmpty_eq_false_iff]
    exact fromEof_ne_nil ht hEof
  have hMove : ReadUpTo (Parse.program c.rest).rest c.rest := by
    rw [hRest]
    exact readUpTo_fromEof c.rest
  unfold program
  simp only [hSome]
  refine ⟨⟨by simp [Outcome.ending], ?_⟩, by simp [Outcome.ending], hRest⟩
  exact passes_addReports (passes_moveTo hMove) _

/-- Every call passes only over what does not end the file, and none runs off. -/
theorem contained_perform {c : Cursor} (h : c.HasEof) (call : Call) :
    c.Contained (c.perform call) := by
  have hStatement := fun tokens (_ : tokens.length < c.rest.length) => withinFile_statement tokens
  cases call with
  | rule r => exact contained_run h (withinFile_rule r c.rest)
  | varDeclaration => exact contained_run h (withinFile_varDeclaration c.rest)
  | statement => exact contained_run h (withinFile_statement c.rest)
  | expressionStatement => exact contained_run h (withinFile_expressionStatement c.rest)
  | printStatement => exact contained_run h (withinFile_printStatement c.rest)
  | ifStatement => exact contained_run h (withinFile_ifStatement hStatement)
  | whileStatement => exact contained_run h (withinFile_whileStatement hStatement)
  | forStatement => exact contained_run h (withinFile_forStatement hStatement)
  | block => exact contained_run h (withinFile_block c.rest)
  | declaration => exact (contained_declaration h).1
  | parse => exact (contained_program h).1
  | peek => exact contained_look (isSome_peek? h) (passes_refl c)
  | previous => exact contained_look (isSome_previous? h) (passes_refl c)
  | atEnd =>
    refine contained_look ?_ (passes_refl c)
    rw [atEnd?, Option.isSome_map]
    exact isSome_peek? h
  | check kind =>
    refine contained_look ?_ (passes_refl c)
    rw [check?, Option.isSome_map]
    exact isSome_peek? h
  | accept kinds => exact contained_accept h kinds
  | consume kind complaint => exact contained_run h (withinFile_expect kind _ c.rest)
  | advance =>
    have hAfter := h.passes (passes_advance c)
    refine contained_look ?_ (passes_advance c)
    obtain ⟨t, ht⟩ := Option.isSome_iff_exists.mp (isSome_peek? h)
    rw [ht]
    exact isSome_previous? hAfter
  | synchronize => exact contained_synchronize h

-- ---------------------------------------------------------------------------
-- Sequences of calls
-- ---------------------------------------------------------------------------

/-- The place of the first token that ends the file. -/
def firstEof (tokens : List Token) : Nat := tokens.findIdx (·.kind == .eof)

/-- What holds of a cursor over tokens after any calls: no end of file lies behind it. -/
structure Within (tokens : List Token) (c : Cursor) : Prop where
  tokens_eq : c.tokens = tokens
  behind : ∀ t ∈ c.behind, t.kind ≠ .eof
  hasEof : c.HasEof

theorem within_start {tokens : List Token} (h : ∃ t ∈ tokens, t.kind = .eof) :
    Within tokens { rest := tokens } := ⟨rfl, by simp, h⟩

theorem Within.passes {tokens : List Token} {c c' : Cursor} (h : Within tokens c)
    (hPasses : c.Passes c') : Within tokens c' := by
  have hEof := h.hasEof.passes hPasses
  obtain ⟨read, hRest, hBehind, hRead⟩ := hPasses
  refine ⟨?_, ?_, hEof⟩
  · rw [← h.tokens_eq]
    show c'.behind.reverse ++ c'.rest = c.behind.reverse ++ c.rest
    rw [hBehind, ← hRest, List.reverse_append, List.reverse_reverse, List.append_assoc]
  · intro t ht
    rw [hBehind] at ht
    rcases List.mem_append.mp ht with hMem | hMem
    · exact hRead t (List.mem_reverse.mp hMem)
    · exact h.behind t hMem

theorem within_after {tokens : List Token} {c : Cursor} (h : Within tokens c) (calls : List Call) :
    Within tokens (c.after calls) := by
  induction calls generalizing c with
  | nil => exact h
  | cons call calls ih =>
    have hCall := contained_perform h.hasEof call
    exact ih (h.passes hCall.2)

theorem firstEof_append {read rest : List Token} (h : ∀ t ∈ read, t.kind ≠ .eof) :
    firstEof (read ++ rest) = read.length + firstEof rest := by
  have hRead : read.findIdx (·.kind == .eof) = read.length := by
    refine List.findIdx_eq_length_of_false ?_
    intro t ht
    simpa using h t ht
  unfold firstEof
  rw [List.findIdx_append, hRead, if_neg (Nat.lt_irrefl _), Nat.add_comm]

/-- How far the first end of file is from the cursor. -/
theorem Within.firstEof_eq {tokens : List Token} {c : Cursor} (h : Within tokens c) :
    firstEof tokens = c.current + firstEof c.rest := by
  have hBehind : ∀ t ∈ c.behind.reverse, t.kind ≠ .eof := by
    intro t ht
    exact h.behind t (List.mem_reverse.mp ht)
  have hAppend := @firstEof_append c.behind.reverse c.rest hBehind
  rw [List.length_reverse] at hAppend
  rw [← h.tokens_eq]
  exact hAppend

theorem Passes.current_eq {c c' : Cursor} (h : c.Passes c') :
    c'.current + c'.rest.length = c.current + c.rest.length := by
  obtain ⟨read, hRest, hBehind, -⟩ := h
  show c'.behind.length + c'.rest.length = c.behind.length + c.rest.length
  rw [hBehind, ← hRest, List.length_append, List.length_append, List.length_reverse]
  omega

theorem Passes.rest_length_le {c c' : Cursor} (h : c.Passes c') :
    c'.rest.length ≤ c.rest.length := by
  obtain ⟨read, hRest, -, -⟩ := h
  rw [← hRest, List.length_append]
  omega

/-- Before the end of the file a declaration moves on, whether it is read or dropped. -/
theorem shorter_declaration {c : Cursor} (h : c.HasEof) (hEnd : c.atEnd? = some false) :
    c.declaration.2.rest.length < c.rest.length := by
  obtain ⟨behind, tokens, earlier⟩ := c
  cases tokens with
  | nil => cases hEnd
  | cons t tail =>
    have hKind : t.kind ≠ .eof := by
      intro hEof
      simp [atEnd?, peek?, Token.isEof, hEof] at hEnd
    have hWithin := @withinFile_declaration t tail hKind
    unfold declaration
    simp only [hKind, dite_false]
    cases hDeclared : Parse.declaration t tail hKind with
    | done s? rest reports hr => exact hr.2
    | ranOff reports =>
      rw [hDeclared] at hWithin
      obtain ⟨u, hu, hEof⟩ := h
      exact absurd hEof (hWithin u hu)

/-- Where the end of the file is next, it is no token away. -/
theorem firstEof_fromEof {tokens : List Token} (h : ∃ t ∈ tokens, t.kind = .eof) :
    firstEof (fromEof tokens) = 0 := by
  induction tokens with
  | nil =>
    obtain ⟨t, ht, -⟩ := h
    cases ht
  | cons t tail ih =>
    by_cases hEof : t.kind = .eof
    · simp [fromEof, firstEof, hEof, List.findIdx_cons]
    · obtain ⟨u, hu, hKind⟩ := h
      have hTail : u ∈ tail := by
        rcases List.mem_cons.mp hu with hEq | hMem
        · rw [hEq] at hKind
          exact absurd hKind hEof
        · exact hMem
      rw [fromEof_of_readUpTo (ReadUpTo.tail hEof tail)]
      exact ih ⟨u, hTail, hKind⟩

/--
Whatever was called before, a call comes to an end in front of the first end of
file or on it and never moves back; declarations and parses always return, a
declaration in front of anything else moves on, and a parse ends on the first
end of file.
-/
theorem calls_stay_within_file (tokens : List Token) (h : ∃ t ∈ tokens, t.kind = .eof)
    (calls : List Call) (call : Call) :
    let c := Cursor.after { rest := tokens } calls
    let result := c.perform call
    result.1 ≠ .ranOff ∧ result.2.tokens = tokens ∧
      c.current ≤ result.2.current ∧ result.2.current ≤ firstEof tokens ∧
      (call = .declaration ∨ call = .parse → result.1 = .done ()) ∧
      (call = .declaration → c.atEnd? = some false → c.current < result.2.current) ∧
      (call = .parse → result.2.current = firstEof tokens) := by
  intro c result
  have hWithin : Within tokens c := within_after (within_start h) calls
  have hEof := hWithin.hasEof
  obtain ⟨hRan, hPasses⟩ : c.Contained result := contained_perform hEof call
  have hAfter : Within tokens result.2 := hWithin.passes hPasses
  have hFirst := hAfter.firstEof_eq
  have hCurrent := hPasses.current_eq
  have hLength := hPasses.rest_length_le
  refine ⟨hRan, hAfter.tokens_eq, by omega, by omega, ?_, ?_, ?_⟩
  · intro hCall
    have hContains : (c.perform call).1 ≠ .abandoned := by
      rcases hCall with hCall | hCall
      · rw [hCall]
        exact (contained_declaration hEof).2
      · rw [hCall]
        exact (contained_program hEof).2.1
    cases hOutcome : result.1 with
    | done value => rfl
    | abandoned => exact absurd hOutcome hContains
    | ranOff => exact absurd hOutcome hRan
  · intro hCall hEnd
    subst hCall
    have hLess : result.2.rest.length < c.rest.length := shorter_declaration hEof hEnd
    omega
  · intro hCall
    subst hCall
    have hRest : result.2.rest = fromEof c.rest := (contained_program hEof).2.2
    have hZero := firstEof_fromEof hEof
    rw [hRest, hZero] at hFirst
    omega

/-- `( ; print`, two ends of the file, and a word behind the first. -/
def brokenTokens : List Token :=
  [{ kind := .leftParen, lexeme := "(", line := 1 },
    { kind := .semicolon, lexeme := ";", line := 1 },
    { kind := .printKw, lexeme := "print", line := 2 }, Token.endOfFile 2,
    { kind := .identifier, lexeme := "a", line := 3 }, Token.endOfFile 3]

/-- A primary that is given up, a declaration that is dropped, and the rest of the parse. -/
theorem calls_stay_within_file_broken :
    (Cursor.after { rest := brokenTokens } [.rule .primary, .declaration, .parse]).current = 3 := by
  have hEof : ∃ t ∈ brokenTokens, t.kind = .eof := ⟨Token.endOfFile 2, by simp [brokenTokens], rfl⟩
  obtain ⟨-, -, -, -, -, -, hParse⟩ :=
    calls_stay_within_file brokenTokens hEof [.rule .primary, .declaration] .parse
  exact hParse rfl

end Cursor

end Scriptlet.Parse
