import Scriptlet.Proofs.Session.Sources

/-!
# Scriptlet — dumps come first

A session that dumps trees prints the dump of every statement of a source, one a
line, before the first statement runs. That is all it does differently: the
statements take no notice of what was printed before them, so they print the same
lines behind the dumps, bind the same names and end in the same way. A source
that something is wrong with is not dumped.

## Results

* `dumpAll_eq_ok_iff`       — one line a statement.
* `printed_start`           — the lines in front of a run.
* `settle_printed`          — what was printed before is no part of what is written.
* `run_dumps_first`         — a source run with dumps and without.
-/

namespace Scriptlet

/-- All statements have dumps exactly if each has, and the lines are theirs in order. -/
theorem Stmt.dumpAll_eq_ok_iff {statements : List Stmt} {lines : List String} :
    Stmt.dumpAll statements = .ok lines ↔
      List.Forall₂ (fun s line => s.dump = .ok line) statements lines := by
  induction statements generalizing lines with
  | nil =>
    rw [Stmt.dumpAll, List.forall₂_nil_left_iff, Except.ok.injEq]
    exact eq_comm
  | cons s rest ih =>
    rw [Stmt.dumpAll, List.forall₂_cons_left_iff]
    cases hFirst : s.dump with
    | error d =>
      refine iff_of_false (by rintro ⟨⟩) ?_
      rintro ⟨_, _, hOk, -, -⟩
      cases hOk
    | ok first =>
      cases hOthers : Stmt.dumpAll rest with
      | error d =>
        refine iff_of_false (by rintro ⟨⟩) ?_
        rintro ⟨_, others, -, hRest, -⟩
        cases hOthers.symm.trans (ih.mpr hRest)
      | ok others =>
        constructor
        · rintro ⟨⟩
          exact ⟨first, others, rfl, ih.mp hOthers, rfl⟩
        · rintro ⟨_, others', ⟨⟩, hRest, rfl⟩
          cases hOthers.symm.trans (ih.mpr hRest)
          rfl

namespace Session

variable {source : String} {s : Session}

theorem printed_foldl_print (lines : List String) (m : Machine) :
    (lines.foldl Machine.print m).printed = m.printed ++ lines.toArray := by
  induction lines generalizing m with
  | nil => simp
  | cons line rest ih =>
    show (rest.foldl Machine.print (m.print line)).printed = _
    rw [ih]
    simp [Machine.print]

/-- In front of a run that is dumped stands one line for each statement. -/
theorem printed_start (source : String) (s : Session) :
    ∃ dumps : List String,
      List.Forall₂ (fun s line => s.dump = .ok line) (statementsIn source) dumps ∧
      (({ s with debug := true } : Session).start (statementsIn source)).printed =
        s.machine.printed ++ dumps.toArray := by
  obtain ⟨dumps, hDumps⟩ := Stmt.AllProper.dumpAll (statementsIn source) (Parse.allProper_program _)
  refine ⟨dumps, Stmt.dumpAll_eq_ok_iff.mp hDumps, ?_⟩
  unfold start
  rw [hDumps]
  exact printed_foldl_print dumps s.machine

/-- The same is written for endings that differ in nothing but their machines. -/
theorem faultsOf_of_like {alike : Machine → Machine → Prop} {ending other : Ending Unit}
    (h : Ending.Like Eq Eq alike ending other) : faultsOf ending = faultsOf other := by
  cases h with
  | ok hMachines => rfl
  | @error halt other m n hHalts hMachines =>
    rw [hHalts.eq_of_eq]
    cases other <;> rfl

/-- Sessions with one reporter settle alike on endings that differ in what was printed before. -/
theorem settle_printed (loud silent : Session) (hReporter : loud.reporter = silent.reporter)
    {start other : Array String} {ending ending' : Ending Unit}
    (h : Ending.Like Eq Eq (Machine.PrintedSince start other) ending ending') :
    (loud.settle ending).reporter = (silent.settle ending').reporter ∧
      Machine.PrintedSince start other (loud.settle ending).machine
        (silent.settle ending').machine := by
  rw [reporter_settle, reporter_settle, machine_settle, machine_settle, faultsOf_of_like h,
    hReporter]
  exact ⟨rfl, h.machine⟩

/--
A source run with dumps and without. Both runs give the same and write the same
diagnostics, and they leave the same bindings. Both print the same lines; unless
something is or was wrong with a source, the first one prints the dumps of the
statements in front of them.
-/
theorem run_dumps_first (rounds : Nat) (source : String) (s : Session) :
    let dumping := ({ s with debug := true } : Session).run rounds source
    let quiet := ({ s with debug := false } : Session).run rounds source
    let (statements, after) := s.read source
    dumping.1 = quiet.1 ∧ (quiet.1 ≠ .error .unfinished → quiet.1 = .ok statements) ∧
      dumping.2.reporter = quiet.2.reporter ∧
      dumping.2.machine.environment = quiet.2.machine.environment ∧
      ∃ dumps lines : List String,
        quiet.2.machine.printed = s.machine.printed ++ lines.toArray ∧
        dumping.2.machine.printed = s.machine.printed ++ (dumps ++ lines).toArray ∧
        (after.reporter.hadSyntaxError = false →
          List.Forall₂ (fun s line => s.dump = .ok line) statements dumps) ∧
        (after.reporter.hadSyntaxError = true → dumps = []) := by
  intro dumping quiet
  have hEnds : quiet.1 ≠ .error .unfinished → quiet.1 = .ok (statementsIn source) :=
    fun h => (run_ends rfl h).1
  rw [read_eq]
  dsimp only
  cases hFlag : (s.afterReading source).reporter.hadSyntaxError with
  | true =>
    have hDumping : dumping = _ := run_of_flag hFlag
    have hQuiet : quiet = _ := run_of_flag hFlag
    refine ⟨?_, hEnds, ?_⟩
    · rw [hDumping, hQuiet]
    rw [hDumping, hQuiet]
    refine ⟨rfl, rfl, [], [], ?_, ?_, by rintro ⟨⟩, fun _ => rfl⟩
    · exact (Array.append_empty).symm
    · exact (Array.append_empty).symm
  | false =>
    have hDumping : dumping = _ := run_eq_settle hFlag
    have hQuiet : quiet = _ := run_eq_settle hFlag
    obtain ⟨dumps, hDumps, hStart⟩ := printed_start source s
    have hScopes : (({ s with debug := true } : Session).ready source).machine.environment =
        (({ s with debug := false } : Session).ready source).machine.environment :=
      environment_start _ _
    have hLike := like_execAll_printed rounds (statementsIn source) hScopes
    obtain ⟨hReporter, hSame, lines, hLoud, hSilent⟩ :=
      settle_printed (({ s with debug := true } : Session).ready source)
        (({ s with debug := false } : Session).ready source) rfl hLike
    refine ⟨by rw [hDumping, hQuiet, outcomeOf_of_like hLike], hEnds, ?_⟩
    rw [hDumping, hQuiet]
    refine ⟨hReporter, hSame, dumps, lines, hSilent, hLoud.trans ?_, fun _ => hDumps,
      by rintro ⟨⟩⟩
    show (({ s with debug := true } : Session).start (statementsIn source)).printed ++ _ = _
    rw [hStart]
    simp

/-- The second statement breaks off, and its dump still stands in front of all that is printed. -/
example : (Session.run 0 "print true; b;" { debug := true }).2.machine.printed =
    #["(print true)", "(expr var b)", "true"] := by decide +kernel

end Session

end Scriptlet
