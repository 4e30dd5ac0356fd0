import Scriptlet.Parse.Step
import Scriptlet.Tree.Basic

/-!
# Scriptlet — going on after a complaint

A declaration that cannot be read is dropped, and reading goes on behind the
next semicolon or in front of the next keyword that starts a statement. In front
of a token that does not end the file recovery always skips something, so a
program with mistakes is read to its end as well.

## Results

* `synchronize`             — where reading goes on.
* `recover`                 — an abandoned declaration becomes a dropped one.
* `suffix_of_synchronize`   — what recovery leaves is a suffix.
* `shorter_of_synchronize`  — before the end of the file it skips something.
-/

namespace Scriptlet.Parse

/-- The keywords at which reading goes on after a complaint. -/
def startsStatement (kind : TokenKind) : Bool :=
  [.classKw, .funKw, .varKw, .forKw, .ifKw, .whileKw, .printKw, .returnKw].contains kind

/-- Skips tokens until `last` is a semicolon or the next one starts a statement or ends the file. -/
def skipFrom (last : Token) : List Token → Option (List Token)
  | [] => none
  | t :: rest =>
    if t.kind = .eof ∨ last.kind = .semicolon ∨ startsStatement t.kind then some (t :: rest)
    else skipFrom t rest

/--
Where reading goes on after a complaint: at least one token is skipped, unless
the file ends there. There is no such place in a list without an end of file.
-/
def synchronize : List Token → Option (List Token)
  | [] => none
  | t :: rest => if t.kind = .eof then some (t :: rest) else skipFrom t rest

/-- Skipping leaves a suffix. -/
theorem suffix_of_skipFrom {last : Token} {tokens rest : List Token}
    (h : skipFrom last tokens = some rest) : rest <:+ tokens := by
  induction tokens generalizing last with
  | nil => simp [skipFrom] at h
  | cons t tail ih =>
    rw [skipFrom] at h
    split at h
    · cases h
      exact List.suffix_rfl
    · exact (ih h).trans (List.suffix_cons t tail)

/-- Recovery leaves a suffix. -/
theorem suffix_of_synchronize {tokens rest : List Token} (h : synchronize tokens = some rest) :
    rest <:+ tokens := by
  cases tokens with
  | nil => simp [synchronize] at h
  | cons t tail =>
    rw [synchronize] at h
    split at h
    · cases h
      exact List.suffix_rfl
    · exact (suffix_of_skipFrom h).trans (List.suffix_cons t tail)

/-- Before the end of the file recovery skips something, wherever it starts. -/
theorem shorter_of_synchronize {t : Token} {tail tokens rest : List Token} (ht : t.kind ≠ .eof)
    (hs : tokens <:+ t :: tail) (h : synchronize tokens = some rest) :
    Shorter rest (t :: tail) := by
  by_cases hlen : tokens.length < (t :: tail).length
  · exact ⟨(suffix_of_synchronize h).trans hs,
      Nat.lt_of_le_of_lt (suffix_of_synchronize h).length_le hlen⟩
  · obtain rfl := hs.eq_of_length (Nat.le_antisymm hs.length_le (Nat.le_of_not_lt hlen))
    rw [synchronize, if_neg ht] at h
    exact ⟨suffix_of_synchronize (by rw [synchronize, if_neg ht]; exact h),
      Nat.lt_succ_of_le (suffix_of_skipFrom h).length_le⟩

/--
What becomes of a declaration: a statement, or none where it was dropped. There
is no abandoning here; only a list without an end of file ends it early.
-/
inductive Declared (tokens : List Token) where
  | done (statement? : Option Stmt) (rest : List Token) (reports : List Report)
      (h : Shorter rest tokens)
  | ranOff (reports : List Report)

/-- Drops a declaration that was abandoned and skips to where reading goes on. -/
def recover {t : Token} {tail : List Token} (ht : t.kind ≠ .eof) :
    Step Stmt (t :: tail) → Declared (t :: tail)
  | .done s rest reports h => .done (some s) rest reports h
  | .abandoned tokens reports hs =>
    match h : synchronize tokens with
    | none => .ranOff reports
    | some rest => .done none rest reports (shorter_of_synchronize ht hs h)
  | .ranOff reports => .ranOff reports

/-- A declaration as a step that is never abandoned. -/
def Declared.toStep {tokens : List Token} : Declared tokens → Step (Option Stmt) tokens
  | done s? rest reports h => .done s? rest reports h
  | ranOff reports => .ranOff reports

end Scriptlet.Parse
