import WeightedSat.Proofs.Cli.Parts
import WeightedSat.Proofs.Report.SolutionText
import WeightedSat.Proofs.Report.SummaryText
import WeightedSat.Proofs.Session.Accord

/-!
# The outputs of the program

The program writes a summary, a trace and an answer, and between any two of its steps it may end.
If it does, there is no answer, and the file of the summary has the bytes that it had: at most it
has been made. If it does not, the three outputs tell of one search of the instance that was loaded,
and each of them is whole.

## Main definitions

* `Invocation.reading`: what comes of reading the instance
* `Aborted`: what is left of a search that did not come to its end
* `Concluded`: what is left of one that did

## Main results

* `Desk.Written.aborted`: as long as no summary is written, ending leaves nothing of it
* `ends_search`: a whole search
* `run_execute`: what is shown before the search and after it changes nothing else
* `execute_outputs`: the program, from the command line to what is left
-/

namespace WeightedSat.Cli

variable {t : FileTree} {inv : Invocation}

/-- What comes of reading the instance of an invocation. -/
def Invocation.reading (inv : Invocation) (t : FileTree) :
    EStateM.Result (Failure LoadError) (Array Mwcnf.Notice) Instance :=
  (Mwcnf.load inv.instancePath (t.read inv.instancePath)).run #[]

/-- **Aborted**: there is no answer; the file of the summary is as it was, or has been made and is
empty; no file but those of the summary and of the trace has changed, and none at all if there was
no instance. -/
structure Aborted (t : FileTree) (inv : Invocation) (d : Desk) : Prop where
  tree_eq : ∀ e notices, inv.reading t = .error e notices → d.tree = t
  answer_eq : d.answer = .empty
  output : ∀ path p, inv.output = some path → t.place? path = some p →
    d.tree.file? p = t.file? p ∨ t.file? p = none ∧ d.tree.file? p = some .empty
  frame : ∀ q, (∀ c path, inv.path? c = some path → t.place? path ≠ some q) →
    d.tree.file? q = t.file? q

/-- **Concluded**: there are rows, a summary and a solution that tell of one search of the instance,
and just these have been written: the summary after the old bytes of its file, the trace in place of
those of its own, and the solution as the answer. -/
def Concluded (t : FileTree) (inv : Invocation) (inst : Instance) (d : Desk) : Prop :=
  ∃ (rows : List (TraceRow Float)) (summary : RunSummary) (solution : BestSolution),
    Accord inst rows summary solution ∧
    d.Written t inv [.trace, .summary]
      ((Texts.none.add .trace (traceText rows).toUTF8).add .summary summary.line.toUTF8)
      solution.line.toUTF8

namespace Desk.Written

variable {opened : List Channel} {texts : Texts} {d : Desk}

/-- **As long as no summary is written**, ending leaves nothing of it. -/
theorem aborted (hseparate : Separate t inv) (h : Written t inv opened texts .empty d)
    (htext : texts .summary = .empty)
    (hreading : ∀ e notices, inv.reading t = .error e notices → d.tree = t) :
    Aborted t inv d where
  tree_eq := hreading
  answer_eq := h.answer_eq
  output := by
    intro path p hpath hplace
    by_cases hc : .summary ∈ opened
    · obtain ⟨p', hplace', hfile⟩ := h.file_eq .summary hc path hpath
      obtain rfl := Option.some.inj (hplace'.symm.trans hplace)
      rw [hfile, htext, ByteArray.append_empty]
      cases t.file? p' with
      | none => exact .inr ⟨rfl, rfl⟩
      | some old => exact .inl rfl
    · exact .inl (h.file?_eq hseparate hc hpath hplace)
  frame q hq := h.frame q fun c _ path hpath => hq c path hpath

end Desk.Written

/-- **The answer** is printed after everything else. -/
theorem Desk.Written.print {opened : List Channel} {texts : Texts} {d : Desk}
    (h : Written t inv opened texts .empty d) (text : String) :
    Written t inv opened texts text.toUTF8 { d with answer := d.answer ++ text.toUTF8 } where
  eq_withFiles := h.eq_withFiles
  file_eq := h.file_eq
  frame := h.frame
  answer_eq := by
    rw [h.answer_eq, ByteArray.empty_append]

theorem rowsOf_emissions {ρ : Type} (solved : Solved Float ρ Spool) :
    rowsOf (emissions solved) ++ solved.sink.elim .empty (·.pending) =
      solved.sink.elim .empty Spool.bytes := by
  unfold emissions
  rw [rowsOf_interleave]
  cases solved.sink with
  | none => rfl
  | some spool => rfl

/-- What is written to the trace is its text, if it has a file. -/
theorem Desk.Written.trace_text {texts : Texts} {answer : ByteArray} {d : Desk}
    {rows : List (TraceRow Float)} {sink : Option Spool}
    (hfeed : (feed rows).run (inv.trace.map fun _ => Spool.start none) = .ok () sink)
    (h : d.Written t inv [.trace, .summary]
      (texts.add .trace (sink.elim .empty Spool.bytes)) answer) :
    d.Written t inv [.trace, .summary] (texts.add .trace (traceText rows).toUTF8) answer := by
  cases hpath : inv.trace with
  | none =>
    refine (h.of_path?_eq_none (c := .trace) hpath fun c hc => ?_).of_mem List.mem_cons_self
    simp [Texts.add, hc]
  | some path =>
    rw [hpath] at hfeed
    obtain ⟨spool, rfl⟩ := exists_some_of_run_feed hfeed
    have hbytes := Spool.bytes_of_feed_start hfeed
    rwa [Option.elim_some, hbytes] at h

/-- **The search of an invocation** ends with an answer only if the instance was loaded and
searched, and otherwise leaves nothing of a summary. -/
theorem ends_search (hseparate : Separate t inv) (seed : UInt64) (log : ByteArray) :
    Ends (search inv seed) { tree := t, log }
      (fun _ d => ∃ inst notices, inv.reading t = .ok inst notices ∧ Concluded t inv inst d)
      (Aborted t inv) := by
  unfold search
  refine (ends_showLine _ _ _).bind ?_
  rintro _ _ ⟨log, rfl⟩
  dsimp only
  refine ((ends_loadInstance _ _ _).mono_error ?_).bind ?_
  · rintro _ ⟨-, log, rfl⟩
    have hbegun := Desk.Written.start t inv { tree := t, log } rfl
    exact hbegun.aborted hseparate rfl fun _ _ _ => rfl
  rintro session _ ⟨⟨inst, notices, hreading, hinst⟩, log, rfl⟩
  change inv.reading t = _ at hreading
  have hbegun := Desk.Written.start t inv { tree := t, log } rfl
  have hloaded : ∀ (d : Desk) e notices, inv.reading t = .error e notices → d.tree = t := by
    intro d e notices' herror
    rw [hreading] at herror
    cases herror
  refine ((hbegun.ends_openSummary hseparate).mono_error fun d hd =>
    hd.aborted hseparate rfl (hloaded d)).bind ?_
  rintro _ d hd
  refine ((hd.ends_openTrace hseparate).mono_error fun d hd =>
    hd.aborted hseparate rfl (hloaded d)).bind ?_
  rintro trace d ⟨rfl, hd⟩
  -- The trace is written whatever becomes of the search.
  generalize hsolved :
    session.solve inv.mode (inv.trace.map fun _ => Spool.start none) = solved
  refine (hd.ends_emit hseparate (by simp) _ _).bind ?_
  rintro _ d ⟨rfl, hd⟩
  refine (hd.ends_writePending hseparate (by simp) solved.sink).bind ?_
  rintro _ d ⟨rfl, hd⟩
  rw [Texts.add_add, rowsOf_emissions] at hd
  cases houtcome : solved.outcome with
  | error e =>
    have haborted := hd.aborted hseparate rfl (hloaded d)
    exact Ends.bind (P := fun _ _ => False) (Ends.throw haborted) fun _ _ h => h.elim
  | ok r =>
    subst hsolved
    obtain ⟨rows, summary, solution, hfeed, hsummary, hsolution, haccord⟩ :=
      Session.accord_of_solve hinst houtcome
    simp only [orEnd, orRefused, pure_bind, hsolution]
    refine ((hd.trace_text hfeed).ends_writeSummary hseparate (by simp) hsummary).bind ?_
    rintro _ d hd
    refine (ends_print solution.line).mono ?_ fun _ => id
    rintro _ _ rfl
    exact ⟨inst, notices, hreading, rows, summary, solution, haccord, hd.print solution.line⟩

/-! ## The program -/

theorem run_showLine (verbose : Bool) (severity : Severity) (text : String) (d : Desk) :
    ∃ log, ((showLine verbose severity text : StateM Desk Unit).run d : Unit × Desk) =
      ((), d.withLog log) := by
  unfold showLine
  split
  · exact ⟨_, rfl⟩
  · exact ⟨d.log, rfl⟩

/-- What the program does once its search is over. -/
def afterSearch (verbose : Bool) : Except (Failure ProgramError) Unit → StateM Desk ExitCode
  | .ok _ => pure 0
  | .error (.error e) => do
    showLine verbose .warning ("Execution failed, error: " ++ e.message)
    pure 1
  | .error (.fault f) => do
    Host.logLine f.message
    pure 101

theorem execute_eq {args : List String} (hargs : Command.ofArguments args = .search inv)
    (entropy : UInt64) :
    (execute args entropy : StateM Desk ExitCode) = (do
      showLine inv.verbose .info "Logging successfully configured"
      let r ← (search inv ((inv.seed.map Nat.toUInt64).getD entropy)).run
      afterSearch inv.verbose r) := by
  rw [execute, hargs]
  rfl

/-- **The program** shows a line, makes the search, and tells of its failure if it has failed. -/
theorem run_execute {args : List String} (hargs : Command.ofArguments args = .search inv)
    (entropy : UInt64) {P E : Desk → Prop} (hE : ∀ d log, E d → E (d.withLog log))
    (h : ∀ seed log, Ends (search inv seed) { tree := t, log } (fun _ => P) E) :
    ∃ (code : ExitCode) (d : Desk),
      ((execute args entropy : StateM Desk ExitCode).run { tree := t } : ExitCode × Desk) =
        (code, d) ∧ (code = 0 → P d) ∧ (code ≠ 0 → E d) := by
  obtain ⟨log, hline⟩ := run_showLine inv.verbose .info "Logging successfully configured"
    { tree := t }
  have hsearch := h ((inv.seed.map Nat.toUInt64).getD entropy) log
  have hrun : ((execute args entropy : StateM Desk ExitCode).run { tree := t } :
      ExitCode × Desk) =
      let result := outcome (search inv ((inv.seed.map Nat.toUInt64).getD entropy))
        { tree := t, log }
      (afterSearch inv.verbose result.1).run result.2 := by
    rw [execute_eq hargs, StateT.run_bind, hline]
    rfl
  rw [hrun]
  unfold Ends at hsearch
  revert hsearch
  rcases outcome (search inv ((inv.seed.map Nat.toUInt64).getD entropy)) { tree := t, log } with
    ⟨(f | e) | _, d⟩
  · intro hd
    exact ⟨101, _, rfl, by simp, fun _ => hE d _ hd⟩
  · intro hd
    obtain ⟨log, hlast⟩ := run_showLine inv.verbose .warning
      ("Execution failed, error: " ++ e.message) d
    refine ⟨1, d.withLog log, ?_, by simp, fun _ => hE d log hd⟩
    simp only [afterSearch, StateT.run_bind, hlast]
    rfl
  · intro hd
    exact ⟨0, d, rfl, fun _ => hd, fun h => absurd rfl h⟩

theorem Aborted.withLog {d : Desk} (h : Aborted t inv d) (log : ByteArray) :
    Aborted t inv (d.withLog log) where
  tree_eq := h.tree_eq
  answer_eq := h.answer_eq
  output := h.output
  frame := h.frame

/-- **The outputs of the program** agree, and a failed run adds nothing. If the instance cannot be
loaded, no file changes. If the program does not end well, there is no answer, and the file of the
summary is as it was, or has been made and is empty. If it ends well, there are rows, a summary and
a solution that tell of one search of the instance; the file of the summary has its old bytes and
then the line of the summary, the file of the trace has the text of the rows and nothing else, and
the answer is the line of the solution. From these the summary is read back, the rows, and codes
that spell the assignment. In no case does any other file change. -/
theorem execute_outputs {args : List String} (hargs : Command.ofArguments args = .search inv)
    (hseparate : Separate t inv) (entropy : UInt64) :
    ∃ (code : ExitCode) (d : Desk),
      ((execute args entropy : StateM Desk ExitCode).run { tree := t } : ExitCode × Desk) =
        (code, d) ∧
      (∀ e notices, inv.reading t = .error e notices → code ≠ 0 ∧ d.tree = t) ∧
      (∀ q, (∀ c path, inv.path? c = some path → t.place? path ≠ some q) →
        d.tree.file? q = t.file? q) ∧
      (code ≠ 0 → d.answer = .empty ∧
        ∀ path p, inv.output = some path → t.place? path = some p →
          d.tree.file? p = t.file? p ∨ t.file? p = none ∧ d.tree.file? p = some .empty) ∧
      (code = 0 → ∃ (inst : Instance) (notices : Array Mwcnf.Notice)
          (rows : List (TraceRow Float)) (summary : RunSummary) (solution : BestSolution)
          (codes : List Int),
        inv.reading t = .ok inst notices ∧ Accord inst rows summary solution ∧
        (∀ path, inv.output = some path → ∃ p, t.place? path = some p ∧
          d.tree.file? p = some ((t.file? p).getD .empty ++ summary.line.toUTF8)) ∧
        RunSummary.ofLine? summary.line = some summary ∧
        (∀ path, inv.trace = some path → ∃ p, t.place? path = some p ∧
          d.tree.file? p = some (traceText rows).toUTF8) ∧
        Tabulates (traceText rows) rows ∧
        d.answer = solution.line.toUTF8 ∧
        BestSolution.ofLine? inst.numVars solution.line =
          some (solution.instanceId, solution.bestWeight, codes) ∧
        Spells codes solution.assignment) := by
  obtain ⟨code, d, hrun, hended, hfailed⟩ := run_execute hargs entropy
    (fun d log hd => hd.withLog log) (ends_search hseparate)
  refine ⟨code, d, hrun, ?_, ?_, ?_, ?_⟩
  · intro e notices herror
    have hcode : code ≠ 0 := by
      intro hzero
      obtain ⟨inst, notices', hok, -⟩ := hended hzero
      rw [herror] at hok
      cases hok
    exact ⟨hcode, (hfailed hcode).tree_eq e notices herror⟩
  · intro q hq
    by_cases hzero : code = 0
    · obtain ⟨inst, notices, -, rows, summary, solution, -, hd⟩ := hended hzero
      exact hd.frame q fun c _ => hq c
    · exact (hfailed hzero).frame q hq
  · intro hcode
    exact ⟨(hfailed hcode).answer_eq, (hfailed hcode).output⟩
  · intro hzero
    obtain ⟨inst, notices, hok, rows, summary, solution, haccord, hd⟩ := hended hzero
    have hanswer := solution.ofLine?_line
    rw [haccord.size_eq] at hanswer
    refine ⟨inst, notices, rows, summary, solution, solution.codes, hok, haccord, ?_,
      summary.ofLine?_line, ?_, tabulates_traceText rows, hd.answer_eq, hanswer,
      solution.spells_codes⟩
    · intro path hpath
      obtain ⟨p, hplace, hfile⟩ := hd.file_eq .summary (by simp) path hpath
      refine ⟨p, hplace, hfile.trans ?_⟩
      simp [Texts.add, Texts.none, Channel.initial, Channel.keep]
    · intro path hpath
      obtain ⟨p, hplace, hfile⟩ := hd.file_eq .trace (by simp) path hpath
      refine ⟨p, hplace, hfile.trans ?_⟩
      simp [Texts.add, Texts.none, Channel.initial, Channel.keep]

/-- A directory with an instance of two variables and a summary file that is not empty. -/
def workbench : FileTree :=
  { files := [(["tmp", "work", "a.cnf"], "p mwcnf 2 2\nw 3 5 0\n1 0\n2 0\n".toUTF8),
      (["tmp", "work", "o.csv"], "old\n".toUTF8)] }

/-- Two steps from temperature two, with a summary and a trace. -/
def errand : List String :=
  ["a.cnf", "2", "0.5", "1.5", "2", "--seed", "1", "--output", "o.csv", "--trace", "t.csv"]

theorem execute_errand :
    ((execute errand 0 : StateM Desk ExitCode).run { tree := workbench } :
      ExitCode × Desk).1 = 0 := by
  decide +kernel

/-- The errand ends well: the summary comes after the old line of its file, the trace has a file of
its own, both tell of the search that the answer comes from, and all three are read back. -/
theorem execute_outputs_errand :
    ∃ (inv : Invocation) (d : Desk) (inst : Instance) (rows : List (TraceRow Float))
        (summary : RunSummary) (solution : BestSolution) (codes : List Int),
      Command.ofArguments errand = .search inv ∧ Separate workbench inv ∧
      ((execute errand 0 : StateM Desk ExitCode).run { tree := workbench } : ExitCode × Desk) =
        (0, d) ∧
      Accord inst rows summary solution ∧
      d.tree.file? ["tmp", "work", "o.csv"] = some ("old\n".toUTF8 ++ summary.line.toUTF8) ∧
      RunSummary.ofLine? summary.line = some summary ∧
      d.tree.file? ["tmp", "work", "t.csv"] = some (traceText rows).toUTF8 ∧
      Tabulates (traceText rows) rows ∧
      d.answer = solution.line.toUTF8 ∧
      BestSolution.ofLine? inst.numVars solution.line =
        some (solution.instanceId, solution.bestWeight, codes) ∧
      Spells codes solution.assignment := by
  obtain ⟨inv, hargs, houtput, htrace⟩ : ∃ inv, Command.ofArguments errand = .search inv ∧
      inv.output = some "o.csv" ∧ inv.trace = some "t.csv" :=
    ⟨_, rfl, rfl, rfl⟩
  have hp : workbench.place? "o.csv" = some ["tmp", "work", "o.csv"] := by decide +kernel
  have hq : workbench.place? "t.csv" = some ["tmp", "work", "t.csv"] := by decide +kernel
  have hseparate := separate_of_place? houtput htrace hp hq (by decide)
  obtain ⟨code, d, hrun, -, -, -, hended⟩ := execute_outputs hargs hseparate 0
  obtain rfl : code = 0 := (congrArg Prod.fst hrun).symm.trans execute_errand
  obtain ⟨inst, notices, rows, summary, solution, codes, -, haccord, hsummary, hrecord, hrows,
    htable, hanswer⟩ := hended rfl
  obtain ⟨p, hp', hsummary⟩ := hsummary "o.csv" houtput
  obtain ⟨q, hq', hrows⟩ := hrows "t.csv" htrace
  obtain rfl := Option.some.inj (hp'.symm.trans hp)
  obtain rfl := Option.some.inj (hq'.symm.trans hq)
  exact ⟨inv, d, inst, rows, summary, solution, codes, hargs, hseparate, hrun, haccord, hsummary,
    hrecord, hrows, htable, hanswer⟩

end WeightedSat.Cli
