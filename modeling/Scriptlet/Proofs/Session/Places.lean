import Scriptlet.Proofs.Lexer.Joined
import Scriptlet.Proofs.Parse.Complaints
import Scriptlet.Proofs.Parse.Likeness
import Scriptlet.Proofs.Session.Sources

/-!
# Scriptlet — what diagnostics are about

What a diagnostic quotes comes from its source: a remark quotes a character of
it, a complaint of the parser the text of one of its tokens, and a fault too,
since no tree has a token that was not read.

## Results

* `mem_of_mem_lexeme`       — the text of a token is part of the source.
* `message_of_mem_remarks`  — remarks about characters.
* `token_of_mem_reports`    — complaints about tokens.
* `token_of_fault`          — faults.
-/

namespace Scriptlet

/-- A place in a cut source is one of its pieces. -/
theorem mem_of_mem_located {line : Int} {pieces : List Piece} {place : Piece × Int}
    (h : place ∈ located line pieces) : place.1 ∈ pieces := by
  rw [← map_fst_located line pieces]
  exact List.mem_map_of_mem h

/-- The characters of a piece are characters of the source. -/
theorem mem_of_mem_text {source : List Char} {pieces : List Piece} (h : Cutting source pieces)
    {piece : Piece} (hPiece : piece ∈ pieces) {c : Char} (hc : c ∈ piece.text) : c ∈ source := by
  rw [← h.flatMap_text]
  exact List.mem_flatMap.mpr ⟨piece, hPiece, hc⟩

section

variable {source : String}

theorem mem_of_mem_lexeme {t : Token} (ht : t ∈ (lex source).1) {c : Char}
    (hc : c ∈ t.lexeme.toList) : c ∈ source.toList := by
  obtain ⟨pieces, hCutting, -⟩ := exists_scanned source.toList
  rw [(lex_of_cutting hCutting).1] at ht
  rcases List.mem_append.mp ht with hToken | hEnd
  · obtain ⟨⟨piece, line⟩, hPlace, hSome⟩ := List.mem_filterMap.mp hToken
    have hPiece := mem_of_mem_located hPlace
    cases piece with
    | token kind text value =>
      cases hSome
      rw [String.toList_ofList] at hc
      exact mem_of_mem_text hCutting hPiece hc
    | blank c => cases hSome
    | comment body => cases hSome
    | stray c => cases hSome
    | unclosed body => cases hSome
  · -- the end of the file has no text
    rw [List.mem_singleton.mp hEnd] at hc
    cases hc

theorem message_of_mem_remarks {m : Remark} (hm : m ∈ (lex source).2) :
    m.complaint.message = "Unterminated string." ∨
      ∃ c ∈ source.toList,
        m.complaint.message = "Unexpected character '" ++ c.toString ++ "'." := by
  obtain ⟨pieces, hCutting, -⟩ := exists_scanned source.toList
  have hShown : m.shown ∈ remarksOf 1 pieces := by
    rw [← (lex_of_cutting hCutting).2]
    exact List.mem_map_of_mem hm
  obtain ⟨⟨piece, line⟩, hPlace, hSome⟩ := List.mem_filterMap.mp hShown
  have hPiece := mem_of_mem_located hPlace
  cases piece with
  | token kind text value => cases hSome
  | blank c => cases hSome
  | comment body => cases hSome
  | stray c =>
    obtain ⟨-, hMessage⟩ := Prod.mk.inj (Option.some.inj hSome)
    exact .inr ⟨c, mem_of_mem_text hCutting hPiece (List.mem_singleton.mpr rfl), hMessage.symm⟩
  | unclosed body =>
    obtain ⟨-, hMessage⟩ := Prod.mk.inj (Option.some.inj hSome)
    exact .inl hMessage.symm

theorem token_of_mem_reports {r : Parse.Report}
    (hr : r ∈ (Parse.program (lex source).1).reports) :
    r.token ∈ (lex source).1 ∧ r.complaint.isFixed = true := by
  obtain ⟨after, hAt⟩ := Parse.at_of_mem_reports_program (lex source).1 r hr
  exact ⟨hAt.token.subset List.mem_cons_self, hAt.fixed⟩

end

-- ---------------------------------------------------------------------------
-- Faults
-- ---------------------------------------------------------------------------

/-- The same token, and it has a property. -/
def Token.Having (p : Token → Prop) (t u : Token) : Prop := t = u ∧ p t

variable {p : Token → Prop}

theorem readAlike_having (p : Token → Prop) : Parse.ReadAlike (Token.Having p) Eq where
  kind := by
    rintro t _ ⟨rfl, -⟩
    rfl
  literal := by
    rintro t _ ⟨rfl, -⟩ _
    rfl
  bool _ := rfl
  nil := rfl

theorem likeness_having (p : Token → Prop) :
    Likeness (Token.Having p) (Token.Having p) (fun _ => True) fun _ => Eq := by
  have hLexeme : ∀ t u, Token.Having p t u → u.lexeme = t.lexeme := by
    rintro t _ ⟨rfl, -⟩
    rfl
  refine likeness_of_text ?_ hLexeme hLexeme
  rintro t _ ⟨rfl, -⟩
  rfl

/-- What all tokens of a source have in common, those of its tree have too. -/
theorem allLike_having (source : String) (h : ∀ t ∈ (lex source).1, p t) :
    Stmt.AllLike (Token.Having p) (Token.Having p) Eq (statementsIn source)
      (statementsIn source) := by
  have hSelf : List.Forall₂ (Token.Having p) (lex source).1 (lex source).1 :=
    List.forall₂_same.mpr fun t ht => ⟨rfl, h t ht⟩
  exact (Parse.like_program (readAlike_having p) hSelf).statements

/-- A run breaks off at a token of its source. -/
theorem token_of_fault {source : String} {rounds : Nat} {m n : Machine} {f : Fault}
    (h : execAll rounds (statementsIn source) m = .error (.fault f) n) :
    f.token ∈ (lex source).1 := by
  have hTrees := allLike_having source fun t ht => ht
  have hLike := (likeness_having (· ∈ (lex source).1)).like_execAll rounds 0 (statementsIn source)
    hTrees (fun _ _ _ => trivial) (rfl : m = m)
  rw [h] at hLike
  cases hLike with
  | error hHalts hMachines =>
    cases hHalts with
    | operator hTokens hCause => exact hTokens.2
    | name hTokens => exact hTokens.2

end Scriptlet
