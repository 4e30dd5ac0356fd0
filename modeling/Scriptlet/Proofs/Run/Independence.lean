import Scriptlet.Proofs.Run.InnerScope
import Scriptlet.Proofs.Session.Sources

/-!
# Scriptlet — the globals that a program uses

A program sees the global scope through the names that occur in it, and through
no others. Two machines whose global scopes agree on these names run it alike,
however different they are elsewhere; and all other globals are left as they
were. While it runs the two machines have the same scopes inside the global one,
since the program itself opened those.

## Results

* `Scope.AgreeOn`           — scopes that agree on some names and were let alone in others.
* `Apart`                   — machines that differ in other globals at most.
* `likeness_apart`          — every use of a name of interest keeps them so.
* `interpret_uses_names`    — statements in two sessions.
-/

namespace Scriptlet

open Run

-- ---------------------------------------------------------------------------
-- Scopes
-- ---------------------------------------------------------------------------

/-- Two scopes agree on some names; in all others each is what it was at the start. -/
structure Scope.AgreeOn (names : List String) (start start' s s' : Scope) : Prop where
  agree : ∀ x ∈ names, s.get? x = s'.get? x
  left : ∀ x ∉ names, s.get? x = start.get? x
  right : ∀ x ∉ names, s'.get? x = start'.get? x

namespace Scope.AgreeOn

variable {names : List String} {start start' s s' : Scope} {name : String}

theorem binds_eq (h : AgreeOn names start start' s s') (hName : name ∈ names) :
    s.binds name = s'.binds name := by
  unfold binds
  rw [h.agree name hName]

/-- Defining one of the names on both sides. -/
theorem define (h : AgreeOn names start start' s s') (hName : name ∈ names) (value : Value) :
    AgreeOn names start start' (s.define name value) (s'.define name value) where
  agree x hx := by
    rw [get?_define, get?_define, h.agree x hx]
  left x hx := by
    have hOther : x ≠ name := fun hSame => hx (hSame ▸ hName)
    rw [get?_define_of_ne s hOther, h.left x hx]
  right x hx := by
    have hOther : x ≠ name := fun hSame => hx (hSame ▸ hName)
    rw [get?_define_of_ne s' hOther, h.right x hx]

end Scope.AgreeOn

-- ---------------------------------------------------------------------------
-- Machines
-- ---------------------------------------------------------------------------

/--
Two machines that were started from others and have gone the same way since: they
have printed the same lines and opened the same scopes, the given number of them,
and their global scopes agree on the names of interest.
-/
structure Apart (names : List String) (start start' : Machine) (depth : Nat) (m n : Machine) :
    Prop where
  printed : ∃ lines, m.printed = start.printed ++ lines ∧ n.printed = start'.printed ++ lines
  scopes : ∃ inner s s', inner.length = depth ∧ m.environment.scopes = inner ++ [s] ∧
    n.environment.scopes = inner ++ [s'] ∧
    Scope.AgreeOn names start.environment.globals start'.environment.globals s s'

/-- Tokens that are the same and name something of interest. -/
def Token.SameIn (names : List String) (t u : Token) : Prop := u = t ∧ t.lexeme ∈ names

section

variable {names : List String} {start start' : Machine} {depth : Nat} {m n : Machine}

theorem scopes_of_atGlobals {env : Environment} (h : env.atGlobals = true) :
    env.scopes = [env.globals] := by
  obtain ⟨current, enclosing⟩ := env
  obtain rfl : enclosing = [] := List.isEmpty_iff.mp h
  rfl

/-- The global scope of a machine that has opened no other. -/
theorem globals_of_scopes {env : Environment} {s : Scope} (h : env.scopes = [s]) :
    env.atGlobals = true ∧ env.globals = s := by
  obtain ⟨current, enclosing⟩ := env
  obtain ⟨rfl, rfl⟩ := List.cons.inj h
  exact ⟨rfl, rfl⟩

theorem apart_start (hStart : start.environment.atGlobals = true)
    (hStart' : start'.environment.atGlobals = true)
    (hAgree : ∀ x ∈ names,
      start.environment.globals.get? x = start'.environment.globals.get? x) :
    Apart names start start' 0 start start' where
  printed := ⟨#[], by simp⟩
  scopes := ⟨[], start.environment.globals, start'.environment.globals, rfl,
    scopes_of_atGlobals hStart, scopes_of_atGlobals hStart',
    ⟨hAgree, fun _ _ => rfl, fun _ _ => rfl⟩⟩

namespace Apart

theorem lookUp {t : Token} (ht : t.lexeme ∈ names) :
    Run.Like Eq (Token.SameIn names) (Apart names start start' depth) (Run.lookUp t)
      (Run.lookUp t) := by
  intro m n hApart
  obtain ⟨inner, s, s', -, hm, hn, hAgree⟩ := hApart.scopes
  have hOuter : lookupIn [s] t.lexeme = lookupIn [s'] t.lexeme := by
    simp [lookupIn, hAgree.agree t.lexeme ht]
  have hSame : n.environment.get? t.lexeme = m.environment.get? t.lexeme := by
    unfold Environment.get?
    rw [hm, hn, lookupIn_append, lookupIn_append, hOuter]
  unfold Run.lookUp
  rw [hSame]
  cases m.environment.get? t.lexeme with
  | some value => exact .ok hApart
  | none => exact .error (.name ⟨rfl, ht⟩) hApart

/-- An assignment goes to the same inner scope, or to both global ones, or nowhere. -/
theorem assign {t : Token} (ht : t.lexeme ∈ names) (value : Value) :
    Run.Like Eq (Token.SameIn names) (Apart names start start' depth) (Run.assign t value)
      (Run.assign t value) := by
  intro m n hApart
  refine Run.like_assign_of_chains ⟨rfl, ht⟩ hApart ?_
  obtain ⟨inner, s, s', hLength, hm, hn, hAgree⟩ := hApart.scopes
  have hSingle : ∀ outer : Scope, assignIn t.lexeme value [outer] =
      if outer.binds t.lexeme then some [outer.define t.lexeme value] else none := fun _ => rfl
  rw [hm, hn, assignIn_append, assignIn_append, hSingle, hSingle, hAgree.binds_eq ht]
  cases hInner : assignIn t.lexeme value inner with
  | some inner' =>
    have hLength' : inner'.length = depth := (length_assignIn hInner).trans hLength
    refine .inr ⟨_, _, rfl, rfl, fun env env' hScopes hScopes' => ?_⟩
    exact ⟨hApart.printed, inner', s, s', hLength', hScopes, hScopes', hAgree⟩
  | none =>
    by_cases hBinds : s'.binds t.lexeme = true
    · simp only [if_pos hBinds]
      refine .inr ⟨_, _, rfl, rfl, fun env env' hScopes hScopes' => ?_⟩
      exact ⟨hApart.printed, inner, _, _, hLength, hScopes, hScopes', hAgree.define ht value⟩
    · simp only [if_neg hBinds]
      exact .inl ⟨rfl, rfl⟩

theorem define (h : Apart names start start' depth m n) {name : String} (hName : name ∈ names)
    (value : Value) :
    Apart names start start' depth (m.define name value) (n.define name value) := by
  obtain ⟨inner, s, s', hLength, hm, hn, hAgree⟩ := h.scopes
  refine ⟨h.printed, ?_⟩
  cases inner with
  | nil =>
    exact ⟨[], s.define name value, s'.define name value, hLength,
      Environment.scopes_define hm name value, Environment.scopes_define hn name value,
      hAgree.define hName value⟩
  | cons innermost rest =>
    exact ⟨innermost.define name value :: rest, s, s', hLength,
      Environment.scopes_define hm name value, Environment.scopes_define hn name value, hAgree⟩

theorem print (h : Apart names start start' depth m n) (line : String) :
    Apart names start start' depth (m.print line) (n.print line) := by
  obtain ⟨lines, hm, hn⟩ := h.printed
  refine ⟨⟨lines.push line, ?_, ?_⟩, h.scopes⟩
  · rw [Array.append_push, ← hm]
    rfl
  · rw [Array.append_push, ← hn]
    rfl

theorem push (h : Apart names start start' depth m n) :
    Apart names start start' (depth + 1) m.push n.push := by
  obtain ⟨inner, s, s', hLength, hm, hn, hAgree⟩ := h.scopes
  refine ⟨h.printed, Scope.empty :: inner, s, s', congrArg (· + 1) hLength, ?_, ?_, hAgree⟩
  · rw [List.cons_append, ← hm]
    rfl
  · rw [List.cons_append, ← hn]
    rfl

theorem pop (h : Apart names start start' (depth + 1) m n) :
    Apart names start start' depth m.pop n.pop := by
  obtain ⟨inner, s, s', hLength, hm, hn, hAgree⟩ := h.scopes
  obtain ⟨innermost, rest, rfl⟩ := List.exists_cons_of_length_eq_add_one hLength
  have hRest : ∀ outer : Scope, rest ++ [outer] ≠ [] := fun outer => by simp
  exact ⟨h.printed, rest, s, s', Nat.succ.inj hLength, Environment.scopes_pop hm (hRest s),
    Environment.scopes_pop hn (hRest s'), hAgree⟩

end Apart

/-- As long as only the names of interest are used, the machines stay apart as they were. -/
theorem likeness_apart (names : List String) (start start' : Machine) :
    Likeness Eq (Token.SameIn names) (fun _ => True) (Apart names start start') where
  kind := by
    rintro t _ rfl
    rfl
  lexeme := by
    rintro t _ rfl
    rfl
  lookUp := by
    rintro depth t _ ⟨rfl, ht⟩
    exact Apart.lookUp ht
  assign := by
    rintro depth t _ value ⟨rfl, ht⟩
    exact Apart.assign ht value
  define := by
    rintro depth m n t _ value ⟨rfl, ht⟩ - h
    exact h.define ht value
  print line h := h.print line
  push := Apart.push
  pop := Apart.pop

theorem Halt.Like.eq_of_sameIn {halt other : Halt}
    (h : halt.Like Eq (Token.SameIn names) other) : other = halt := by
  cases h with
  | operator hTokens _ => rw [hTokens]
  | name hTokens => rw [hTokens.1]
  | defect d => rfl
  | unfinished => rfl

end

-- ---------------------------------------------------------------------------
-- Sessions
-- ---------------------------------------------------------------------------

namespace Session

/--
Statements run in two sessions that are at their global scopes, which agree on
all names that occur in the statements. Given the same number of rounds they come
to the same in both, print the same lines and report the same fault, if any. The
sessions are at their global scopes again; these agree on the names as before,
and in all other names each is as it was.
-/
theorem interpret_uses_names {s t : Session} (rounds : Nat) (statements : List Stmt)
    (hs : s.machine.environment.atGlobals = true) (ht : t.machine.environment.atGlobals = true)
    (hAgree : ∀ x ∈ Stmt.allNames statements,
      s.machine.environment.globals.get? x = t.machine.environment.globals.get? x) :
    let here := s.interpret rounds statements
    let there := t.interpret rounds statements
    there.1 = here.1 ∧
      (∃ lines, here.2.machine.printed = s.machine.printed ++ lines ∧
        there.2.machine.printed = t.machine.printed ++ lines) ∧
      (∃ fault? : Option Fault,
        here.2.reporter = s.reporter.faulted (fault?.toList.map Fault.notice) ∧
        there.2.reporter = t.reporter.faulted (fault?.toList.map Fault.notice)) ∧
      here.2.machine.environment.atGlobals = true ∧
      there.2.machine.environment.atGlobals = true ∧
      Scope.AgreeOn (Stmt.allNames statements) s.machine.environment.globals
        t.machine.environment.globals here.2.machine.environment.globals
        there.2.machine.environment.globals := by
  intro here there
  have hHere : here = _ := interpret_eq rounds statements s
  have hThere : there = _ := interpret_eq rounds statements t
  have hSelf : Stmt.AllLike Eq (Token.SameIn (Stmt.allNames statements)) Eq statements
      statements := Stmt.allLike_self (fun _ => rfl) fun _ hName => ⟨rfl, hName⟩
  have hLike := (likeness_apart _ s.machine t.machine).like_execAll rounds 0 statements hSelf
    (fun _ _ _ => trivial) (apart_start hs ht hAgree)
  rw [hHere, hThere]
  dsimp only
  rw [machine_settle, machine_settle, reporter_settle, reporter_settle]
  generalize execAll rounds statements s.machine = ending at hLike ⊢
  generalize execAll rounds statements t.machine = other at hLike ⊢
  have hFaultsEq : faultsOf other = faultsOf ending := by
    cases hLike with
    | ok _ => rfl
    | @error halt _ _ _ hHalts _ =>
      rw [hHalts.eq_of_sameIn]
      cases halt <;> rfl
  have hApart := hLike.machine
  obtain ⟨fault?, hFaults⟩ := exists_faultsOf ending
  obtain ⟨inner, g, g', hInner, hScopes, hScopes', hGlobals⟩ := hApart.scopes
  obtain rfl := List.eq_nil_of_length_eq_zero hInner
  obtain ⟨hAt, rfl⟩ := globals_of_scopes hScopes
  obtain ⟨hAt', rfl⟩ := globals_of_scopes hScopes'
  refine ⟨outcomeOf_of_like hLike, hApart.printed, ⟨fault?, ?_, ?_⟩, hAt, hAt', hGlobals⟩
  · rw [hFaults]
  · rw [hFaultsEq, hFaults]

/-- `print a; b = nil;` in two sessions, of which one has another global as well. -/
theorem interpret_uses_names_elsewhere :
    let name (lexeme : String) : Token := { kind := .identifier, lexeme, line := 1 }
    let statements : List Stmt :=
      [.print (.variable (name "a")), .expression (.assign (name "b") (.literal .nil))]
    let session (bindings : List (String × Value)) : Session :=
      { machine := { environment := { current := { bindings } } } }
    let s := session [("other", .nil), ("a", .bool true)]
    let t := session [("a", .bool true)]
    let here := (s.interpret 0 statements).2
    let there := (t.interpret 0 statements).2
    here.machine.printed = #["true"] ∧ there.machine.printed = here.machine.printed ∧
      there.reporter.notices = here.reporter.notices ∧
      here.machine.environment.globals.names = ["other", "a"] ∧
      there.machine.environment.globals.binds "other" = false := by
  intro name statements session s t here there
  have hAgree : ∀ x ∈ Stmt.allNames statements,
      s.machine.environment.globals.get? x = t.machine.environment.globals.get? x := by
    intro x hx
    have hNames : x ∈ ["a", "b"] := hx
    simp only [List.mem_cons, List.not_mem_nil, or_false] at hNames
    rcases hNames with rfl | rfl
    · rfl
    · rfl
  obtain ⟨-, ⟨lines, hHere, hThere⟩, ⟨fault?, hFault, hFault'⟩, -, -, hGlobals⟩ :=
    interpret_uses_names 0 statements (s := s) (t := t) rfl rfl hAgree
  refine ⟨by decide +kernel, ?_, ?_, by decide +kernel, ?_⟩
  · exact hThere.trans hHere.symm
  · rw [hFault, hFault']
  · unfold Scope.binds
    rw [hGlobals.right "other" (by decide)]
    rfl

end Session

end Scriptlet
