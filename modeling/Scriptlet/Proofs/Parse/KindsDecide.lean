import Scriptlet.Proofs.Parse.Calls
import Scriptlet.Proofs.Parse.LaterText
import Scriptlet.Proofs.Parse.Likeness
import Scriptlet.Proofs.Parse.ProperTrees
import Scriptlet.Proofs.Tree.Outline

/-!
# Scriptlet — the kinds of tokens decide the parse

Two cursors between tokens that are read alike stay so whatever is called. So the
kinds of the tokens alone decide where every call ends, how it ends and what is
complained about, and they decide the outline of the tree: to find out, the kinds
are read with numbered tokens, which know nothing but their places. What the
tokens are otherwise, their texts, values and lines, shows nowhere but at the
places of the outline.

## Results

* `Cursor.Like`, `like_perform`, `like_after` — cursors between tokens that are read alike.
* `numbered`, `forall₂_numbered` — numbered tokens of the kinds of a list.
* `ReportOutline`, `Fits`   — a complaint and the place of the token that it is about.
* `kinds_decide_parse`      — all lists of the same kinds are parsed in the same way.
-/

namespace Scriptlet.Parse

-- ---------------------------------------------------------------------------
-- Cursors
-- ---------------------------------------------------------------------------

namespace Cursor

/-- Cursors at the same place, between tokens and behind complaints that are alike. -/
structure Like (alike : Token → Token → Prop) (c c' : Cursor) : Prop where
  behind : List.Forall₂ alike c.behind c'.behind
  rest : List.Forall₂ alike c.rest c'.rest
  reports : List.Forall₂ (Report.Like alike) c.reports c'.reports

/-- Calls that end in the same way, with cursors that are alike. -/
def EndsLike (alike : Token → Token → Prop) (result other : Outcome Unit × Cursor) : Prop :=
  result.1 = other.1 ∧ result.2.Like alike other.2

section

variable {alike : Token → Token → Prop} {value : Value → Value → Prop} {c c' : Cursor}

theorem Like.moveTo (h : c.Like alike c') {rest rest' : List Token}
    (hRest : List.Forall₂ alike rest rest') : (c.moveTo rest).Like alike (c'.moveTo rest') := by
  refine ⟨?_, hRest, h.reports⟩
  show List.Forall₂ alike
    ((c.rest.take (c.rest.length - rest.length)).reverse ++ c.behind)
    ((c'.rest.take (c'.rest.length - rest'.length)).reverse ++ c'.behind)
  rw [← h.rest.length_eq, ← hRest.length_eq]
  exact List.rel_append (List.forall₂_reverse_iff.mpr (List.forall₂_take _ h.rest)) h.behind

theorem Like.addReports (h : c.Like alike c') {reports reports' : List Report}
    (hReports : List.Forall₂ (Report.Like alike) reports reports') :
    (c.addReports reports).Like alike (c'.addReports reports') :=
  ⟨h.behind, h.rest, List.rel_append h.reports hReports⟩

/-- A rule that reads tokens alike takes the cursors to the same place. -/
theorem like_run {α β : Type} {P : α → β → Prop} (h : c.Like alike c')
    {rule : (tokens : List Token) → Step α tokens} {rule' : (tokens : List Token) → Step β tokens}
    (hStep : (rule c.rest).Like alike P (rule' c'.rest)) :
    EndsLike alike ((c.run rule).1.ending, (c.run rule).2)
      ((c'.run rule').1.ending, (c'.run rule').2) := by
  unfold run
  generalize rule c.rest = step at hStep ⊢
  generalize rule' c'.rest = step' at hStep ⊢
  cases hStep with
  | done hValue hRest hReports => exact ⟨rfl, (h.moveTo hRest).addReports hReports⟩
  | abandoned hRest hReports => exact ⟨rfl, (h.moveTo hRest).addReports hReports⟩
  | ranOff hReports => exact ⟨rfl, (h.moveTo .nil).addReports hReports⟩

theorem isSome_eq {β γ : Type} {R : β → γ → Prop} {look : Option β} {look' : Option γ}
    (h : Option.Rel R look look') : look.isSome = look'.isSome := by
  cases h <;> rfl

/-- A look at a token ends in the same way if the token is there in both lists or in none. -/
theorem like_look {β γ : Type} {look : Option β} {look' : Option γ}
    (hLook : look.isSome = look'.isSome) (h : c.Like alike c') :
    EndsLike alike (.ofLook look, c) (.ofLook look', c') := by
  refine ⟨?_, h⟩
  cases look <;> cases look' <;> first | rfl | cases hLook

theorem forall₂_head? {tokens others : List Token} (h : List.Forall₂ alike tokens others) :
    Option.Rel alike tokens.head? others.head? := by
  cases h with
  | nil => exact .none
  | cons hHead hTail => exact .some hHead

theorem Like.peek? (h : c.Like alike c') : Option.Rel alike c.peek? c'.peek? :=
  forall₂_head? h.rest

theorem Like.previous? (h : c.Like alike c') : Option.Rel alike c.previous? c'.previous? := by
  have hHead := forall₂_head? h.behind
  have hLast := forall₂_head? (List.forall₂_reverse_iff.mpr h.rest)
  rw [List.head?_reverse, List.head?_reverse] at hLast
  unfold Cursor.previous?
  generalize c.behind.head? = t? at hHead ⊢
  generalize c'.behind.head? = u? at hHead ⊢
  cases hHead with
  | some hToken => exact .some hToken
  | none => exact hLast

variable (L : ReadAlike alike value)

include L

theorem Like.advance (h : c.Like alike c') : c.advance.Like alike c'.advance := by
  unfold Cursor.advance
  have hRest := h.rest
  generalize c.rest = tokens at hRest ⊢
  generalize c'.rest = others at hRest ⊢
  cases hRest with
  | nil => exact h
  | @cons t u rest rest' hHead hTail =>
    dsimp only
    rw [L.isEof_eq hHead]
    split
    · exact h
    · exact ⟨.cons hHead h.behind, hTail, h.reports⟩

theorem Like.accept (h : c.Like alike c') (kinds : List TokenKind) :
    (c.accept kinds).2.Like alike (c'.accept kinds).2 := by
  have hIs : (c'.peek?.any fun u => kinds.any u.is) = c.peek?.any fun t => kinds.any t.is := by
    have hPeek := h.peek?
    generalize c.peek? = t? at hPeek ⊢
    generalize c'.peek? = u? at hPeek ⊢
    cases hPeek with
    | some hHead =>
      have hSame := funext (L.is_eq hHead)
      rw [Option.any_some, Option.any_some, hSame]
    | none => rfl
  unfold Cursor.accept
  rw [hIs]
  split
  · exact h.advance L
  · exact h

theorem like_synchronize (h : c.Like alike c') :
    EndsLike alike c.synchronize c'.synchronize := by
  have hNext := Parse.like_synchronize L h.rest
  unfold synchronize
  generalize Parse.synchronize c.rest = rest? at hNext ⊢
  generalize Parse.synchronize c'.rest = rest?' at hNext ⊢
  cases hNext with
  | none => exact ⟨rfl, h.moveTo .nil⟩
  | some hRest => exact ⟨rfl, h.moveTo hRest⟩

/-- At the end of the file there is no declaration, and the statement that is tried is given up. -/
theorem like_declaration_eof {t u : Token} {tail tail' : List Token} (h : c.Like alike c')
    (hTokens : c.rest = t :: tail) (hOthers : c'.rest = u :: tail') (ht : t.kind = .eof)
    (hu : u.kind = .eof) :
    EndsLike alike (c.perform .declaration) (c'.perform .declaration) := by
  have hTried := like_run h ((like_statement_and_block L c.rest).1 c'.rest h.rest)
  have hPerform {d : Cursor} {v : Token} {rest : List Token} (hRest : d.rest = v :: rest)
      (hv : v.kind = .eof) : d.perform .declaration =
        (match (d.run statement).1.ending with | .abandoned => .done () | ending => ending,
          (d.run statement).2) := by
    obtain ⟨behind, tokens, reports⟩ := d
    obtain rfl : tokens = v :: rest := hRest
    unfold perform declaration
    simp only [hv, dite_true]
    generalize run _ statement = result
    obtain ⟨outcome, after⟩ := result
    cases outcome <;> rfl
  rw [hPerform hTokens ht, hPerform hOthers hu]
  have hEnding : (c.run statement).1.ending = (c'.run statement).1.ending := hTried.1
  rw [hEnding]
  exact ⟨rfl, hTried.2⟩

theorem like_declaration (h : c.Like alike c') :
    EndsLike alike (c.perform .declaration) (c'.perform .declaration) := by
  obtain ⟨behind, tokens, earlier⟩ := c
  obtain ⟨behind', others, earlier'⟩ := c'
  cases h.rest with
  | nil => exact ⟨rfl, h⟩
  | @cons t u tail tail' hHead hTail =>
    by_cases ht : t.kind = .eof
    · exact like_declaration_eof L h rfl rfl ht ((L.kind t u hHead).trans ht)
    · have hu : u.kind ≠ .eof := L.kind_ne hHead ht
      have hDeclared := Parse.like_declaration L ht hu hHead hTail
      unfold perform declaration
      simp only [ht, hu, dite_false]
      generalize Parse.declaration t tail ht = d at hDeclared ⊢
      generalize Parse.declaration u tail' hu = d' at hDeclared ⊢
      cases d with
      | done s? rest reports hr =>
        cases d' with
        | done s?' rest' reports' hr' =>
          cases hDeclared with
          | done hValue hRest hReports => exact ⟨rfl, (h.moveTo hRest).addReports hReports⟩
        | ranOff reports' => cases hDeclared
      | ranOff reports =>
        cases d' with
        | done s?' rest' reports' hr' => cases hDeclared
        | ranOff reports' =>
          cases hDeclared with
          | ranOff hReports => exact ⟨rfl, (h.moveTo .nil).addReports hReports⟩

theorem like_parse (h : c.Like alike c') :
    EndsLike alike (c.perform .parse) (c'.perform .parse) := by
  have hProgram := like_program L h.rest
  have hEmpty : (Parse.program c'.rest).rest.isEmpty = (Parse.program c.rest).rest.isEmpty := by
    have hRest := hProgram.rest
    generalize (Parse.program c.rest).rest = rest at hRest ⊢
    generalize (Parse.program c'.rest).rest = rest' at hRest ⊢
    cases hRest <;> rfl
  have hMoved := (h.moveTo hProgram.rest).addReports hProgram.reports
  unfold perform Cursor.program
  dsimp only
  rw [hEmpty]
  refine ⟨?_, hMoved⟩
  split <;> rfl

/-- Every call ends in the same way, at the same place and with the same complaints. -/
theorem like_perform (h : c.Like alike c') (call : Call) :
    EndsLike alike (c.perform call) (c'.perform call) := by
  have hStatement : AlikeBelow alike (Stmt.Like alike alike value) statement c.rest :=
    fun tokens others _ hTokens => (like_statement_and_block L tokens).1 others hTokens
  cases call with
  | rule r => exact like_run h (like_rule L r c.rest c'.rest h.rest)
  | varDeclaration => exact like_run h (like_varDeclaration L h.rest)
  | statement => exact like_run h ((like_statement_and_block L c.rest).1 c'.rest h.rest)
  | expressionStatement => exact like_run h (like_expressionStatement L h.rest)
  | printStatement => exact like_run h (like_printStatement L h.rest)
  | ifStatement => exact like_run h (like_ifStatement L h.rest hStatement)
  | whileStatement => exact like_run h (like_whileStatement L h.rest hStatement)
  | forStatement => exact like_run h (like_forStatement L h.rest hStatement)
  | block => exact like_run h ((like_statement_and_block L c.rest).2 c'.rest h.rest)
  | declaration => exact like_declaration L h
  | parse => exact like_parse L h
  | peek => exact like_look (isSome_eq h.peek?) h
  | previous => exact like_look (isSome_eq h.previous?) h
  | atEnd =>
    refine like_look ?_ h
    rw [atEnd?, atEnd?, Option.isSome_map, Option.isSome_map, isSome_eq h.peek?]
  | check kind =>
    refine like_look ?_ h
    rw [check?, check?, Option.isSome_map, Option.isSome_map, isSome_eq h.peek?]
  | accept kinds =>
    cases kinds with
    | nil => exact ⟨rfl, h⟩
    | cons kind kinds => exact like_look (isSome_eq h.peek?) (h.accept L (kind :: kinds))
  | consume kind complaint => exact like_run h (like_expect L h.rest kind (.missing complaint))
  | advance =>
    have hPeek := h.peek?
    have hAdvance := h.advance L
    refine like_look ?_ hAdvance
    generalize c.peek? = t? at hPeek ⊢
    generalize c'.peek? = u? at hPeek ⊢
    cases hPeek with
    | none => rfl
    | some _ => exact isSome_eq hAdvance.previous?
  | synchronize => exact like_synchronize L h

theorem like_after (h : c.Like alike c') (calls : List Call) :
    (c.after calls).Like alike (c'.after calls) := by
  induction calls generalizing c c' with
  | nil => exact h
  | cons call calls ih => exact ih (like_perform L h call).2

end

end Cursor

-- ---------------------------------------------------------------------------
-- Numbered tokens
-- ---------------------------------------------------------------------------

/-- Tokens of the given kinds that know nothing but their places. -/
def numbered (kinds : List TokenKind) : List Token := kinds.mapIdx Token.numbered

theorem readAlike_standsFor (tokens : List Token) :
    ReadAlike (Token.StandsFor tokens) (Value.StandsFor tokens) where
  kind := by
    rintro _ t ⟨place, rfl, -⟩
    rfl
  literal := by
    rintro _ t ⟨place, rfl, hPlace⟩ _
    exact .numbered hPlace
  bool := .bool
  nil := .nil

/-- The numbered tokens stand for every list of tokens of their kinds. -/
theorem forall₂_numbered {tokens : List Token} {kinds : List TokenKind}
    (h : tokens.map Token.kind = kinds) :
    List.Forall₂ (Token.StandsFor tokens) (numbered kinds) tokens := by
  subst h
  refine List.forall₂_iff_get.mpr ⟨by simp [numbered], fun i hi hi' => ⟨i, ?_, ?_⟩⟩
  · simp [numbered]
  · simp

/-- A complaint, the place of its token, and how many tokens there are from it on. -/
structure ReportOutline where
  place : Nat
  left : Nat
  complaint : Complaint

/-- A report about the token of a list at the place of the outline. -/
structure ReportOutline.Fits (tokens : List Token) (o : ReportOutline) (r : Report) : Prop where
  token : tokens[o.place]? = some r.token
  left : r.left = o.left
  complaint : r.complaint = o.complaint

/-- The outline of a report about a numbered token. -/
def Report.outline (r : Report) : ReportOutline where
  place := r.token.place
  left := r.left
  complaint := r.complaint

theorem forall₂_fits {tokens : List Token} {reports reports' : List Report}
    (h : List.Forall₂ (Report.Like (Token.StandsFor tokens)) reports reports') :
    List.Forall₂ (ReportOutline.Fits tokens) (reports.map Report.outline) reports' := by
  rw [List.forall₂_map_left_iff]
  refine h.imp fun r s hLike => ⟨?_, hLike.left, hLike.complaint⟩
  exact hLike.token.getElem?_place

/-- The place that a numbered token knows is its place in the list. -/
theorem place_add_left {kinds : List TokenKind} {r : Report}
    (h : r ∈ (program (numbered kinds)).reports) :
    r.token.place + r.left = kinds.length := by
  obtain ⟨place, hToken, hLeft⟩ := standsAt_of_mem_reports h
  have hPlace : r.token.place = place := by
    simp only [numbered, List.getElem?_mapIdx, Option.map_eq_some_iff] at hToken
    obtain ⟨kind, -, hKind⟩ := hToken
    rw [← hKind, Token.place_numbered]
  rw [hPlace, hLeft, numbered, List.length_mapIdx]

-- ---------------------------------------------------------------------------
-- All lists of the same kinds
-- ---------------------------------------------------------------------------

theorem like_numbered {tokens : List Token} {kinds : List TokenKind}
    (h : tokens.map Token.kind = kinds) :
    Cursor.Like (Token.StandsFor tokens) { rest := numbered kinds } { rest := tokens } :=
  ⟨.nil, forall₂_numbered h, .nil⟩

/-- The statements of every list are the outline of the numbered ones, filled with its tokens. -/
theorem fillAll?_program {tokens : List Token} {kinds : List TokenKind}
    (h : tokens.map Token.kind = kinds) :
    StmtOutline.fillAll? tokens (Stmt.outlineAll (program (numbered kinds)).statements) =
      some (program tokens).statements := by
  have hLike := like_program (readAlike_standsFor tokens) (forall₂_numbered h)
  exact Stmt.fillAll?_outlineAll _ hLike.statements (allProper_program _)

theorem program_eq_done {tokens : List Token} {kinds : List TokenKind}
    (hKinds : tokens.map Token.kind = kinds) (h : .eof ∈ kinds) :
    (Cursor.program { rest := tokens }).1 = .done (program tokens).statements := by
  rw [← hKinds] at h
  obtain ⟨t, ht, hEof⟩ := List.mem_map.mp h
  have hRest : (program tokens).rest.isEmpty = false := by
    rw [List.isEmpty_eq_false_iff, rest_program]
    exact fromEof_ne_nil ht hEof
  unfold Cursor.program
  simp [hRest]

/--
All lists of tokens of the same kinds, with an end of file among them, are parsed
in the same way: into one outline, filled with the tokens of each list, up to one
place, and with the same complaints in the same order about the tokens at the same
places. The same holds of every call after any others: how it ends, where it leaves
the cursor and what has been complained about then depend on the kinds alone.
-/
theorem kinds_decide_parse (kinds : List TokenKind) (hEof : .eof ∈ kinds) :
    (∃ (outline : List StmtOutline) (reports : List ReportOutline) (place : Nat),
      (∀ o ∈ reports, o.place + o.left = kinds.length) ∧
      ∀ tokens : List Token, tokens.map Token.kind = kinds →
        ∃ (statements : List Stmt) (after : Cursor),
          Cursor.program { rest := tokens } = (.done statements, after) ∧
          StmtOutline.fillAll? tokens outline = some statements ∧ after.current = place ∧
          List.Forall₂ (ReportOutline.Fits tokens) reports after.reports) ∧
    ∀ (calls : List Call) (call : Call),
      ∃ (ending : Outcome Unit) (reports : List ReportOutline) (place : Nat),
        ∀ tokens : List Token, tokens.map Token.kind = kinds →
          let result := (Cursor.after { rest := tokens } calls).perform call
          result.1 = ending ∧ result.2.current = place ∧
            List.Forall₂ (ReportOutline.Fits tokens) reports result.2.reports := by
  constructor
  · let first := Cursor.program { rest := numbered kinds }
    refine ⟨Stmt.outlineAll (program (numbered kinds)).statements,
      first.2.reports.map Report.outline, first.2.current, ?_, fun tokens hKinds => ?_⟩
    · intro o ho
      obtain ⟨r, hr, rfl⟩ := List.mem_map.mp ho
      exact place_add_left hr
    · obtain ⟨-, hLike⟩ := Cursor.like_parse (readAlike_standsFor tokens) (like_numbered hKinds)
      exact ⟨_, _, Prod.ext (program_eq_done hKinds hEof) rfl, fillAll?_program hKinds,
        hLike.behind.length_eq.symm, forall₂_fits hLike.reports⟩
  · intro calls call
    let first := (Cursor.after { rest := numbered kinds } calls).perform call
    refine ⟨first.1, first.2.reports.map Report.outline, first.2.current, fun tokens hKinds => ?_⟩
    have L := readAlike_standsFor tokens
    obtain ⟨hEnding, hLike⟩ :=
      Cursor.like_perform L (Cursor.like_after L (like_numbered hKinds) calls) call
    exact ⟨hEnding.symm, hLike.behind.length_eq.symm, forall₂_fits hLike.reports⟩

/-- `( ; print`, two ends of the file and a word, and the same with other texts on other lines. -/
theorem kinds_decide_parse_broken :
    let tokens := Cursor.brokenTokens
    let others := tokens.map fun t => { t with lexeme := "x", literal := .text t.lexeme, line := 9 }
    others.map Token.kind = tokens.map Token.kind ∧ .eof ∈ tokens.map Token.kind ∧
      ∃ outline, StmtOutline.fillAll? tokens outline = some (program tokens).statements ∧
        StmtOutline.fillAll? others outline = some (program others).statements ∧
        (Cursor.program { rest := others }).2.current =
          (Cursor.program { rest := tokens }).2.current := by
  intro tokens others
  have hKinds : others.map Token.kind = tokens.map Token.kind := rfl
  have hEof : .eof ∈ tokens.map Token.kind := by decide
  obtain ⟨⟨outline, reports, place, -, hAll⟩, -⟩ := kinds_decide_parse _ hEof
  obtain ⟨statements, after, hDone, hFilled, hPlace, -⟩ := hAll tokens rfl
  obtain ⟨statements', after', hDone', hFilled', hPlace', -⟩ := hAll others hKinds
  obtain rfl : (program tokens).statements = statements := by
    have hStatements := program_eq_done (rfl : tokens.map Token.kind = _) hEof
    rw [hDone] at hStatements
    exact (Outcome.done.inj hStatements).symm
  obtain rfl : (program others).statements = statements' := by
    have hStatements := program_eq_done hKinds hEof
    rw [hDone'] at hStatements
    exact (Outcome.done.inj hStatements).symm
  exact ⟨hKinds, hEof, outline, hFilled, hFilled', by rw [hDone, hDone', hPlace, hPlace']⟩

end Scriptlet.Parse
