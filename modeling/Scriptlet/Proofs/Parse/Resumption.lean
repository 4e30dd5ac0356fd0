import Scriptlet.Proofs.Parse.Damage

/-!
# Scriptlet — where reading goes on after a complaint

Recovery discards the token at which a declaration was given up, whatever that
token is. From there on it spares the keywords that start a statement: it stops
in front of the first of them, or behind the first semicolon. So a statement
that starts behind the token of the complaint is read as if it stood alone, but
one that starts with the very token of the complaint loses its keyword, as in
`var a print a;`, where nothing is left of the second statement.

## Results

* `attempt`                 — a declaration before recovery.
* `Resumes`                 — what is discarded, and where reading goes on.
* `synchronize_eq_some_iff` — recovery goes on at that place and no other.
* `Resumes.keyword_iff`     — when a keyword is among the discarded tokens.
* `program_of_resumes`      — a statement behind them is read.
* `recovery_spares_later_keywords` — all of it together.
* `keyword_at_complaint_lost` — a keyword that the complaint is about.
-/

namespace Scriptlet.Parse

open Grammar Step

-- ---------------------------------------------------------------------------
-- A declaration before recovery
-- ---------------------------------------------------------------------------

/-- What a declaration reads, or where it is given up, before anything is recovered. -/
def attempt (t : Token) (tail : List Token) : Step Stmt (t :: tail) :=
  if t.kind = .varKw then (varDeclaration tail).within (List.suffix_cons t tail)
  else statement (t :: tail)

theorem declaration_eq_recover {t : Token} {tail : List Token} (ht : t.kind ≠ .eof) :
    declaration t tail ht = recover ht (attempt t tail) := by
  rw [declaration, attempt]
  split
  · rfl
  · rfl

theorem withinFile_attempt {t : Token} (ht : t.kind ≠ .eof) (tail : List Token) :
    (attempt t tail).WithinFile := by
  unfold attempt
  split
  · exact withinFile_behind ht (withinFile_varDeclaration tail)
  · exact withinFile_statement (t :: tail)

/-- A declaration that was given up is dropped, and reading goes on where recovery says. -/
theorem declaration_of_abandoned {t : Token} {tail cursor rest : List Token}
    {reports : List Report} {h : cursor <:+ t :: tail} (ht : t.kind ≠ .eof)
    (hGivenUp : attempt t tail = .abandoned cursor reports h)
    (hRest : synchronize cursor = some rest) :
    ∃ hr, declaration t tail ht = .done none rest reports hr := by
  rw [declaration_eq_recover ht, hGivenUp, recover]
  split
  · next hNone => simp [hNone] at hRest
  · next after hSome =>
    obtain rfl := Option.some.inj (hSome.symm.trans hRest)
    exact ⟨shorter_of_synchronize ht h hSome, rfl⟩

-- ---------------------------------------------------------------------------
-- What recovery discards
-- ---------------------------------------------------------------------------

/-- The keywords with which a declaration or a statement starts. -/
def opensStatement (kind : TokenKind) : Bool :=
  [.varKw, .forKw, .ifKw, .whileKw, .printKw].contains kind

theorem startsStatement_of_opensStatement {kind : TokenKind} (h : opensStatement kind = true) :
    startsStatement kind = true := by
  cases kind <;> simp [opensStatement] at h <;> rfl

/--
The tokens that recovery discards and those in front of which reading goes on:
only the first discarded token may be a keyword that starts a statement, only
the last one a semicolon, and nothing is discarded only at the end of the file.
-/
structure Resumes (discarded rest : List Token) : Prop where
  spared : ∀ u ∈ discarded.tail, startsStatement u.kind = false
  inFile : ∀ u ∈ discarded, u.kind ≠ .eof
  unended : ∀ u ∈ discarded.dropLast, u.kind ≠ .semicolon
  stops : ∃ next after, rest = next :: after ∧ (next.kind = .eof ∨ discarded ≠ [] ∧
    (startsStatement next.kind = true ∨ ∃ u ∈ discarded.getLast?, u.kind = .semicolon))

theorem resumes_singleton_iff {last : Token} {rest : List Token} :
    Resumes [last] rest ↔ last.kind ≠ .eof ∧ ∃ next after, rest = next :: after ∧
      (next.kind = .eof ∨ last.kind = .semicolon ∨ startsStatement next.kind = true) := by
  constructor
  · intro h
    obtain ⟨next, after, hRest, hStop⟩ := h.stops
    refine ⟨h.inFile last (by simp), next, after, hRest, ?_⟩
    simpa [or_comm] using hStop
  · intro h
    obtain ⟨hLast, next, after, hRest, hStop⟩ := h
    exact ⟨by simp, by simpa using hLast, by simp, next, after, hRest,
      by simpa [or_comm] using hStop⟩

/-- One more token is discarded if neither it nor the next one is where reading goes on. -/
theorem resumes_cons_cons_iff {last t : Token} {discarded rest : List Token} :
    Resumes (last :: t :: discarded) rest ↔ last.kind ≠ .eof ∧ last.kind ≠ .semicolon ∧
      startsStatement t.kind = false ∧ Resumes (t :: discarded) rest := by
  constructor
  · intro h
    obtain ⟨hSpared, hTail⟩ := List.forall_mem_cons.mp h.spared
    obtain ⟨hLast, hFile⟩ := List.forall_mem_cons.mp h.inFile
    obtain ⟨hOpen, hUnended⟩ := List.forall_mem_cons.mp h.unended
    exact ⟨hLast, hOpen, hSpared, hTail, hFile, hUnended, by simpa using h.stops⟩
  · intro h
    obtain ⟨hLast, hOpen, hSpared, hRest⟩ := h
    exact ⟨List.forall_mem_cons.mpr ⟨hSpared, hRest.spared⟩,
      List.forall_mem_cons.mpr ⟨hLast, hRest.inFile⟩,
      List.forall_mem_cons.mpr ⟨hOpen, hRest.unended⟩, by simpa using hRest.stops⟩

/-- By induction on the tokens; `last` is the token discarded before them. -/
theorem skipFrom_eq_some_iff {last : Token} {tokens rest : List Token} (hLast : last.kind ≠ .eof) :
    skipFrom last tokens = some rest ↔
      ∃ skipped, tokens = skipped ++ rest ∧ Resumes (last :: skipped) rest := by
  induction tokens generalizing last with
  | nil =>
    refine iff_of_false (by simp [skipFrom]) ?_
    rintro ⟨skipped, hTokens, hResumes⟩
    obtain ⟨next, after, rfl, -⟩ := hResumes.stops
    simp at hTokens
  | cons t tail ih =>
    rw [skipFrom]
    by_cases hStop : t.kind = .eof ∨ last.kind = .semicolon ∨ startsStatement t.kind = true
    · rw [if_pos hStop]
      constructor
      · intro h
        obtain rfl := Option.some.inj h
        exact ⟨[], rfl, resumes_singleton_iff.mpr ⟨hLast, t, tail, rfl, hStop⟩⟩
      · rintro ⟨skipped, hTokens, hResumes⟩
        cases skipped with
        | nil => rw [hTokens, List.nil_append]
        | cons u skipped =>
          -- nothing may be discarded behind a place to stop at
          obtain ⟨rfl, -⟩ := List.cons.inj hTokens
          obtain ⟨-, hOpen, hSpared, hMore⟩ := resumes_cons_cons_iff.mp hResumes
          have hEof : t.kind ≠ .eof := hMore.inFile t List.mem_cons_self
          simp [hEof, hOpen, hSpared] at hStop
    · rw [if_neg hStop]
      simp only [not_or, Bool.not_eq_true] at hStop
      obtain ⟨hEof, hOpen, hSpared⟩ := hStop
      rw [ih hEof]
      constructor
      · rintro ⟨skipped, rfl, hResumes⟩
        exact ⟨t :: skipped, rfl, resumes_cons_cons_iff.mpr ⟨hLast, hOpen, hSpared, hResumes⟩⟩
      · rintro ⟨skipped, hTokens, hResumes⟩
        cases skipped with
        | nil =>
          obtain ⟨-, next, after, hRest, hStop⟩ := resumes_singleton_iff.mp hResumes
          rw [List.nil_append, hRest] at hTokens
          obtain ⟨rfl, -⟩ := List.cons.inj hTokens
          simp [hEof, hOpen, hSpared] at hStop
        | cons u skipped =>
          obtain ⟨rfl, hTail⟩ := List.cons.inj hTokens
          exact ⟨skipped, hTail, (resumes_cons_cons_iff.mp hResumes).2.2.2⟩

/-- Recovery goes on in front of `rest` exactly if that is the place for it. -/
theorem synchronize_eq_some_iff {tokens rest : List Token} :
    synchronize tokens = some rest ↔
      ∃ discarded, tokens = discarded ++ rest ∧ Resumes discarded rest := by
  cases tokens with
  | nil =>
    refine iff_of_false (by simp [synchronize]) ?_
    rintro ⟨discarded, hTokens, hResumes⟩
    obtain ⟨next, after, rfl, -⟩ := hResumes.stops
    simp at hTokens
  | cons t tail =>
    rw [synchronize]
    by_cases ht : t.kind = .eof
    · rw [if_pos ht]
      constructor
      · intro h
        obtain rfl := Option.some.inj h
        exact ⟨[], rfl, by simp, by simp, by simp, t, tail, rfl, .inl ht⟩
      · rintro ⟨discarded, hTokens, hResumes⟩
        cases discarded with
        | nil => rw [hTokens, List.nil_append]
        | cons u discarded =>
          obtain ⟨rfl, -⟩ := List.cons.inj hTokens
          exact absurd ht (hResumes.inFile t List.mem_cons_self)
    · rw [if_neg ht, skipFrom_eq_some_iff ht]
      constructor
      · rintro ⟨skipped, rfl, hResumes⟩
        exact ⟨t :: skipped, rfl, hResumes⟩
      · rintro ⟨discarded, hTokens, hResumes⟩
        cases discarded with
        | nil =>
          obtain ⟨next, after, rfl, hStop⟩ := hResumes.stops
          obtain ⟨rfl, -⟩ := List.cons.inj hTokens
          simp [ht] at hStop
        | cons u skipped =>
          obtain ⟨rfl, hTail⟩ := List.cons.inj hTokens
          exact ⟨skipped, hTail, hResumes⟩

/-- A keyword is discarded exactly if it is the first token that recovery meets. -/
theorem Resumes.keyword_iff {discarded rest : List Token} (h : Resumes discarded rest) :
    (∃ u ∈ discarded, opensStatement u.kind = true) ↔
      Next (opensStatement · = true) (discarded ++ rest) := by
  cases discarded with
  | nil =>
    obtain ⟨next, after, rfl, hStop⟩ := h.stops
    have hEof : next.kind = .eof := by simpa using hStop
    refine iff_of_false (by simp) ?_
    rintro ⟨t, more, hTokens, ht⟩
    obtain ⟨rfl, -⟩ := List.cons.inj hTokens
    rw [hEof] at ht
    exact absurd ht (by decide)
  | cons t skipped =>
    constructor
    · rintro ⟨u, hMem, hu⟩
      rcases List.mem_cons.mp hMem with rfl | hSkipped
      · exact ⟨u, skipped ++ rest, rfl, hu⟩
      · have hSpared : startsStatement u.kind = false := h.spared u hSkipped
        rw [startsStatement_of_opensStatement hu] at hSpared
        exact absurd hSpared (by decide)
    · rintro ⟨u, more, hTokens, hu⟩
      obtain ⟨rfl, -⟩ := List.cons.inj hTokens
      exact ⟨t, List.mem_cons_self, hu⟩

-- ---------------------------------------------------------------------------
-- Statements behind them
-- ---------------------------------------------------------------------------

/-- Tokens that keep recovery going: they end no statement and start none. -/
structure Junk (junk : List Token) : Prop where
  some : junk ≠ []
  plain : ∀ u ∈ junk, u.kind ≠ .semicolon ∧ u.kind ≠ .eof ∧ startsStatement u.kind = false

/-- Behind junk recovery goes on in front of the first keyword. -/
theorem Junk.resumes {junk rest : List Token} (h : Junk junk)
    (hRest : Next (opensStatement · = true) rest) : Resumes junk rest := by
  obtain ⟨next, after, rfl, hNext⟩ := hRest
  refine ⟨fun u hu => (h.plain u (List.mem_of_mem_tail hu)).2.2, fun u hu => (h.plain u hu).2.1,
    fun u hu => (h.plain u (List.mem_of_mem_dropLast hu)).1, next, after, rfl, .inr ⟨h.some, ?_⟩⟩
  exact .inl (startsStatement_of_opensStatement hNext)

/-- A declaration that was dropped leaves a complaint behind and what follows as it is. -/
theorem program_of_resumes {t : Token} {tail rest more ts : List Token} {s : Stmt}
    {reports : List Report} {ht : t.kind ≠ .eof} {hr : Shorter rest (t :: tail)}
    (hDropped : declaration t tail ht = .done none rest reports hr) (hRest : rest = ts ++ more)
    (hTree : StmtTree .declaration ts s) (hMore : Next (· ≠ .elseKw) more) :
    program (t :: tail) =
      { statements := s :: (program more).statements
        reports := reports ++ (program more).reports
        rest := (program more).rest } := by
  have hStatement : ProgramTree ts [s] := ⟨[(ts, s)], by simpa using hTree, by simp, rfl⟩
  rw [program_cons hDropped, hRest, program_of_tree_append hStatement hMore]
  rfl

/--
A declaration that is given up in front of `cursor`, in a list with an end of
file, is dropped with the complaints made so far, and reading goes on behind the
tokens that recovery discards. Among these is a keyword that starts a statement
exactly if it is the first of them, the token at which the declaration was given
up. A statement behind junk, in front of which recovery stops, is the next
declaration that is read, and is returned whatever follows it.
-/
theorem recovery_spares_later_keywords (t : Token) (tail : List Token) (ht : t.kind ≠ .eof)
    (hEof : ∃ u ∈ t :: tail, u.kind = .eof) (cursor : List Token) (reports : List Report)
    (h : cursor <:+ t :: tail) (hGivenUp : attempt t tail = .abandoned cursor reports h) :
    ∃ discarded rest, ∃ hr : Shorter rest (t :: tail), cursor = discarded ++ rest ∧
      Resumes discarded rest ∧ declaration t tail ht = .done none rest reports hr ∧
      ((∃ u ∈ discarded, opensStatement u.kind = true) ↔
        Next (opensStatement · = true) cursor) ∧
      ∀ junk ts more s, cursor = junk ++ (ts ++ more) → Junk junk →
        Next (opensStatement · = true) ts → StmtTree .declaration ts s →
        Next (· ≠ .elseKw) more →
        rest = ts ++ more ∧
          (∃ u after, ∃ hu : u.kind ≠ .eof, ∃ hs, rest = u :: after ∧
            declaration u after hu = .done (some s) more [] hs) ∧
          program (t :: tail) =
            { statements := s :: (program more).statements
              reports := reports ++ (program more).reports
              rest := (program more).rest } := by
  -- what was read in front of the cursor ends no file, so recovery finds a place to go on
  have hRead : ReadUpTo cursor (t :: tail) := by
    have hFile := withinFile_attempt ht tail
    rw [hGivenUp] at hFile
    exact hFile.1
  obtain ⟨rest, hRest⟩ : ∃ rest, synchronize cursor = some rest := by
    refine Option.ne_none_iff_exists'.mp ?_
    intro hNone
    obtain ⟨eof, hMem, hKind⟩ := hEof
    exact hRead.no_eof (no_eof_of_synchronize hNone) eof hMem hKind
  obtain ⟨discarded, hCursor, hResumes⟩ := synchronize_eq_some_iff.mp hRest
  obtain ⟨hr, hDropped⟩ := declaration_of_abandoned ht hGivenUp hRest
  refine ⟨discarded, rest, hr, hCursor, hResumes, hDropped, ?_, ?_⟩
  · rw [hCursor]
    exact hResumes.keyword_iff
  · intro junk ts more s hJunk hPlain hOpens hTree hMore
    have hNext : Next (opensStatement · = true) (ts ++ more) := by
      obtain ⟨u, after, rfl, hu⟩ := hOpens
      exact ⟨u, after ++ more, rfl, hu⟩
    have hThere : synchronize cursor = some (ts ++ more) :=
      synchronize_eq_some_iff.mpr ⟨junk, hJunk, hPlain.resumes hNext⟩
    have hSame : rest = ts ++ more := Option.some.inj (hRest.symm.trans hThere)
    obtain ⟨u, after, hu, hs, hFirst, -, hDone⟩ := declaration_of_tree hTree hMore
    exact ⟨hSame, ⟨u, after, hu, hs, hSame.trans hFirst, hDone⟩,
      program_of_resumes hDropped hSame hTree hMore⟩

/-- `print a;` is a declaration. -/
theorem stmtTree_printA :
    StmtTree .declaration printA (.print (.variable (word .identifier "a"))) := by
  have hName : ExprTree .primary [word .identifier "a"] (.variable (word .identifier "a")) :=
    .name rfl
  exact .statement (.print rfl rfl hName.toExpression)

/-- `print a;` behind `var a 1` is read: only the number is discarded. -/
theorem recovery_spares_later_keywords_number :
    let tokens := word .identifier "a" :: word .number "1" :: (printA ++ [word .eof ""])
    let complaint : Report := ⟨word .number "1", 5, .openDeclaration⟩
    (∃ h, attempt (word .varKw "var") tokens = .abandoned (tokens.drop 1) [complaint] h) ∧
      program (word .varKw "var" :: tokens) =
        { statements := [.print (.variable (word .identifier "a"))]
          reports := [complaint]
          rest := [word .eof ""] } := by
  intro tokens complaint
  have hSuffix : tokens.drop 1 <:+ word .varKw "var" :: tokens :=
    ⟨[word .varKw "var", word .identifier "a"], rfl⟩
  have hGivenUp : attempt (word .varKw "var") tokens =
      .abandoned (tokens.drop 1) [complaint] hSuffix := rfl
  obtain ⟨_, _, _, -, -, -, -, hStatement⟩ :=
    recovery_spares_later_keywords (word .varKw "var") tokens (by decide)
      ⟨word .eof "", by simp [tokens, printA], rfl⟩ (tokens.drop 1) [complaint] hSuffix hGivenUp
  obtain ⟨-, -, hProgram⟩ := hStatement [word .number "1"] _ [word .eof ""] _ rfl
    ⟨by simp, by decide⟩ ⟨word .printKw "print", _, rfl, rfl⟩ stmtTree_printA
    ⟨word .eof "", [], rfl, by decide⟩
  refine ⟨⟨hSuffix, hGivenUp⟩, ?_⟩
  have hEof : (word .eof "").kind = .eof := rfl
  rw [hProgram, program, dif_pos hEof]
  rfl

/--
In `var a print a;` the declaration is given up in front of the second keyword,
which recovery discards and the statement with it, although that statement is
well formed.
-/
theorem keyword_at_complaint_lost :
    let tokens := word .identifier "a" :: (printA ++ [word .eof ""])
    let complaint : Report := ⟨word .printKw "print", 4, .openDeclaration⟩
    (∃ h, attempt (word .varKw "var") tokens = .abandoned (tokens.drop 1) [complaint] h) ∧
      Resumes printA [word .eof ""] ∧
      StmtTree .declaration printA (.print (.variable (word .identifier "a"))) ∧
      program (word .varKw "var" :: tokens) =
        { statements := [], reports := [complaint], rest := [word .eof ""] } := by
  intro tokens complaint
  have hSuffix : tokens.drop 1 <:+ word .varKw "var" :: tokens :=
    ⟨[word .varKw "var", word .identifier "a"], rfl⟩
  have hGivenUp : attempt (word .varKw "var") tokens =
      .abandoned (tokens.drop 1) [complaint] hSuffix := rfl
  refine ⟨⟨hSuffix, hGivenUp⟩, ⟨by decide, by decide, by decide, word .eof "", [], rfl, .inl rfl⟩,
    stmtTree_printA, ?_⟩
  have hRest : synchronize (tokens.drop 1) = some [word .eof ""] := rfl
  obtain ⟨hr, hDropped⟩ := declaration_of_abandoned (by decide) hGivenUp hRest
  have hEof : (word .eof "").kind = .eof := rfl
  rw [program_cons hDropped, program, dif_pos hEof]
  rfl

end Scriptlet.Parse
