import WeightedSat.Mwcnf.File
import WeightedSat.Proofs.Anneal.Best
import WeightedSat.Session

/-!
# Histories of a session

A session answers operations, one after another, and each of them may fail. Whatever the history,
the result that the session keeps is one of the instance that it keeps: loading an instance forgets
the result, a search that succeeds replaces it, and no other operation touches either.

## Main definitions

* `Session.Op`, `Session.Op.Answer`, `Session.perform`: an operation, and what comes of it
* `Session.after ops s`: the session after the operations
* `RunResult.Belongs`: a result is one for an instance
* `Session.LoadedDuring`, `Session.SolvedSince`: what a history has done

## Main results

* `Session.task_perform`: what one operation can do to the task
* `Session.Sound.after`, `Session.isSome_lastRun?_after`: what a history can do to it
* `Session.sound_history`: the answers about the last search, after any history
-/

namespace WeightedSat

variable {F ρ σ : Type}

/-- **Belonging**: the best state belongs to the instance, and the moves are those of all levels. -/
structure RunResult.Belongs (r : RunResult F) (inst : Instance) : Prop where
  best : r.best.Belongs inst
  iterations_eq : r.iterations = r.levels * r.schedule.iterationsPerTemperature

namespace Session

/-! ## The answers about the last search -/

/-- **Sound session**: the result that is kept belongs to the instance that is kept. -/
def Sound (s : Session F ρ) : Prop :=
  ∀ task r, s.task = some task → task.lastRun = some r → r.Belongs task.inst

theorem finished_eq_ok {s : Session F ρ} {task : Task F} {r : RunResult F}
    (htask : s.task = some task) (hr : task.lastRun = some r) :
    s.finished = .ok (task.inst, r) := by
  obtain ⟨inst, lastRun⟩ := task
  obtain rfl : lastRun = some r := hr
  unfold finished
  rw [htask]

theorem finished_eq_error {s : Session F ρ} (h : s.lastRun? = none) :
    s.finished = .error (.error .noSolution) := by
  unfold finished
  split
  · next htask =>
    simp [lastRun?, htask] at h
  · rfl

/-- **A sound session with a result** answers with its figures, which are those of its instance. -/
theorem Sound.summaries {s : Session F ρ} (hs : s.Sound) {r : RunResult F}
    (hr : s.lastRun? = some r) :
    ∃ inst, s.inst? = some inst ∧ r.Belongs inst ∧
      s.bestSolution = .ok {
        instanceId := inst.name, bestWeight := r.best.weight, assignment := r.best.assignment } ∧
      s.completeSummary = .ok {
        instanceId := inst.name, bestWeight := r.best.weight
        satisfied := inst.numClauses - r.best.unsatisfied, unsatisfied := r.best.unsatisfied
        totalSteps := r.iterations } := by
  unfold lastRun? at hr
  obtain ⟨task, htask, hlast⟩ := Option.bind_eq_some_iff.mp hr
  have hbelongs := hs task r htask hlast
  have hfinished := finished_eq_ok htask hlast
  have hle : ¬ task.inst.numClauses < r.best.unsatisfied :=
    Nat.not_lt_of_le hbelongs.best.unsatisfied_le
  refine ⟨task.inst, by simp [inst?, htask], hbelongs, ?_, ?_⟩
  · unfold bestSolution
    rw [hfinished]
    rfl
  · unfold completeSummary
    rw [hfinished]
    simp [hle, bind, Except.bind, pure, Except.pure]

/-! ## Operations -/

/-- **Operation**: what a session is asked for. -/
inductive Op (F ρ : Type) : Type 1
  | load (path : String) (contents : Except FileError ByteArray)
  | read (stream : Mwcnf.Stream) (name : String)
  | setInstance (inst : Instance)
  | setSource (source : ρ)
  | solve {σ : Type} [TraceSink F σ] (mode : Mode F) (sink : Option σ)
  | inst?
  | lastRun?
  | bestSolution
  | completeSummary

/-- The answers to an operation. -/
def Op.Answer : Op F ρ → Type
  | .load _ _ => Except (Failure (SolveError F)) Unit
  | .read _ _ => Except (Failure (SolveError F)) Unit
  | .setInstance _ => Unit
  | .setSource _ => Unit
  | @Op.solve _ _ σ _ _ _ => Except (Failure (SolveError F)) (RunResult F) × Option σ
  | .inst? => Option Instance
  | .lastRun? => Option (RunResult F)
  | .bestSolution => Except (Failure (SolveError F)) BestSolution
  | .completeSummary => Except (Failure (SolveError F)) RunSummary

/-- The answer of a loading, with the session that it leaves. -/
def loading : EStateM.Result (Failure (SolveError F)) (Session F ρ) Unit →
    Except (Failure (SolveError F)) Unit × Session F ρ
  | .ok _ s => (.ok (), s)
  | .error e s => (.error e, s)

variable [Scalar F] [WordSource ρ]

/-- **Performing** an operation: its answer, and the session that remains. -/
def perform : (op : Op F ρ) → Session F ρ → op.Answer × Session F ρ
  | .load path contents, s => loading ((load (Mwcnf.load path contents)).run s)
  | .read stream name, s => loading ((load (Mwcnf.read stream name)).run s)
  | .setInstance inst, s => ((), s.setInstance inst)
  | .setSource source, s => ((), s.setSource source)
  | @Op.solve _ _ _ _ mode sink, s =>
    let solved := s.solve mode sink
    ((solved.outcome, solved.sink), solved.session)
  | .inst?, s => (s.inst?, s)
  | .lastRun?, s => (s.lastRun?, s)
  | .bestSolution, s => (s.bestSolution, s)
  | .completeSummary, s => (s.completeSummary, s)

/-- The session after operations. -/
def after (ops : List (Op F ρ)) (s : Session F ρ) : Session F ρ :=
  ops.foldl (fun s op => (perform op s).2) s

/-- The operation makes an instance the task. -/
def Op.Loads : Op F ρ → Session F ρ → Prop
  | .load path contents, s => (perform (.load path contents) s).1 = .ok ()
  | .read stream name, s => (perform (.read stream name) s).1 = .ok ()
  | .setInstance _, _ => True
  | _, _ => False

/-- The operation is a search that succeeds. -/
def Op.Solves : Op F ρ → Session F ρ → Prop
  | @Op.solve _ _ _ _ mode sink, s => ∃ r, (s.solve mode sink).outcome = .ok r
  | _, _ => False

/-- Some operation has made an instance the task. -/
def LoadedDuring : List (Op F ρ) → Session F ρ → Prop
  | [], _ => False
  | op :: ops, s => op.Loads s ∨ LoadedDuring ops (perform op s).2

/-- **Solved**: some operation was a search that succeeded, and no operation after it has made an
instance the task. -/
def SolvedSince : List (Op F ρ) → Session F ρ → Prop
  | [], _ => False
  | op :: ops, s =>
    op.Solves s ∧ ¬ LoadedDuring ops (perform op s).2 ∨ SolvedSince ops (perform op s).2

/-! ## One operation -/

omit [Scalar F] [WordSource ρ] in
theorem task_load (reading : Mwcnf.Reading Instance) (s : Session F ρ) :
    ((loading ((load reading).run s)).1 = .ok () ∧
      ∃ inst, (loading ((load reading).run s)).2.task = some { inst }) ∨
    ((loading ((load reading).run s)).1 ≠ .ok () ∧
      (loading ((load reading).run s)).2.task = s.task) := by
  unfold load EStateM.run
  dsimp only
  cases reading #[] with
  | ok inst notices => exact .inl ⟨rfl, inst, rfl⟩
  | error e notices => exact .inr ⟨by simp [loading], rfl⟩

/-- A search that succeeds leaves its result with the instance, and the result belongs to it. One
that fails leaves the task as it was. -/
theorem task_solve [TraceSink F σ] (mode : Mode F) (sink : Option σ) (s : Session F ρ) :
    (∃ task r, (s.solve mode sink).outcome = .ok r ∧ s.task = some task ∧ r.Belongs task.inst ∧
      (s.solve mode sink).session.task = some { task with lastRun := some r }) ∨
    ((∀ r, (s.solve mode sink).outcome ≠ .ok r) ∧ (s.solve mode sink).session.task = s.task) := by
  unfold solve
  cases htask : s.task with
  | none =>
    right
    exact ⟨by simp, htask⟩
  | some task =>
    dsimp only
    cases hobjective : Objective.ofInstance (F := F) task.inst with
    | error c =>
      right
      exact ⟨by simp, htask⟩
    | ok o =>
      dsimp only
      cases houtcome : (anneal o s.strategy (mode.resolve task.inst) s.source sink).outcome with
      | error e =>
        right
        exact ⟨by simp, rfl⟩
      | ok r =>
        left
        have hbest := anneal_belongs houtcome
        rw [(Objective.eq_of_ofInstance hobjective).1] at hbest
        exact ⟨task, r, rfl, rfl, ⟨hbest, (anneal_iterations_eq houtcome).2⟩, rfl⟩

/-- **What an operation does to the task**: a loading makes it a new one without a result, a search
that succeeds gives it a result, and anything else leaves it as it is. -/
theorem task_perform (op : Op F ρ) (s : Session F ρ) :
    (op.Loads s ∧ ¬ op.Solves s ∧ ∃ inst, (perform op s).2.task = some { inst }) ∨
    (¬ op.Loads s ∧ op.Solves s ∧ ∃ task r, s.task = some task ∧ r.Belongs task.inst ∧
      (perform op s).2.task = some { task with lastRun := some r }) ∨
    (¬ op.Loads s ∧ ¬ op.Solves s ∧ (perform op s).2.task = s.task) := by
  cases op with
  | load path contents =>
    rcases task_load (Mwcnf.load path contents) s with ⟨hok, htask⟩ | ⟨hfailed, htask⟩
    · exact .inl ⟨hok, id, htask⟩
    · exact .inr (.inr ⟨hfailed, id, htask⟩)
  | read stream name =>
    rcases task_load (Mwcnf.read stream name) s with ⟨hok, htask⟩ | ⟨hfailed, htask⟩
    · exact .inl ⟨hok, id, htask⟩
    · exact .inr (.inr ⟨hfailed, id, htask⟩)
  | setInstance inst => exact .inl ⟨trivial, id, inst, rfl⟩
  | solve mode sink =>
    rcases task_solve mode sink s with ⟨task, r, hok, htask, hr, hkept⟩ | ⟨hfailed, htask⟩
    · exact .inr (.inl ⟨id, ⟨r, hok⟩, task, r, htask, hr, hkept⟩)
    · refine .inr (.inr ⟨id, ?_, htask⟩)
      rintro ⟨r, hr⟩
      exact hfailed r hr
  | setSource _ => exact .inr (.inr ⟨id, id, rfl⟩)
  | inst? => exact .inr (.inr ⟨id, id, rfl⟩)
  | lastRun? => exact .inr (.inr ⟨id, id, rfl⟩)
  | bestSolution => exact .inr (.inr ⟨id, id, rfl⟩)
  | completeSummary => exact .inr (.inr ⟨id, id, rfl⟩)

/-! ## Histories -/

theorem Sound.perform {s : Session F ρ} (hs : s.Sound) (op : Op F ρ) : (perform op s).2.Sound := by
  intro task r htask hr
  rcases task_perform op s with ⟨-, -, inst, hnew⟩ | ⟨-, -, old, r', -, hr', hnew⟩ | ⟨-, -, hkept⟩
  · rw [hnew] at htask
    obtain rfl := Option.some.inj htask
    cases hr
  · rw [hnew] at htask
    obtain rfl := Option.some.inj htask
    obtain rfl := Option.some.inj hr
    exact hr'
  · rw [hkept] at htask
    exact hs task r htask hr

/-- **Every history** keeps a session sound. -/
theorem Sound.after {s : Session F ρ} (hs : s.Sound) (ops : List (Op F ρ)) :
    (after ops s).Sound := by
  induction ops generalizing s with
  | nil => exact hs
  | cons op ops ih => exact ih (hs.perform op)

theorem isSome_lastRun?_perform (op : Op F ρ) (s : Session F ρ) :
    (perform op s).2.lastRun?.isSome ↔ op.Solves s ∨ s.lastRun?.isSome ∧ ¬ op.Loads s := by
  rcases task_perform op s with ⟨hl, hs, inst, hnew⟩ | ⟨hl, hs, old, r, hold, -, hnew⟩ |
    ⟨hl, hs, hkept⟩
  · simp [lastRun?, hnew, hl, hs]
  · simp [lastRun?, hnew, hl, hs]
  · simp [lastRun?, hkept, hl, hs]

theorem loadedDuring_cons (op : Op F ρ) (ops : List (Op F ρ)) (s : Session F ρ) :
    LoadedDuring (op :: ops) s ↔ op.Loads s ∨ LoadedDuring ops (perform op s).2 := Iff.rfl

theorem solvedSince_cons (op : Op F ρ) (ops : List (Op F ρ)) (s : Session F ρ) :
    SolvedSince (op :: ops) s ↔
      op.Solves s ∧ ¬ LoadedDuring ops (perform op s).2 ∨ SolvedSince ops (perform op s).2 :=
  Iff.rfl

/-- **There is a result** exactly if a search has succeeded since the last loading, or there was one
before and nothing has been loaded. -/
theorem isSome_lastRun?_after (ops : List (Op F ρ)) (s : Session F ρ) :
    (after ops s).lastRun?.isSome ↔
      SolvedSince ops s ∨ s.lastRun?.isSome ∧ ¬ LoadedDuring ops s := by
  induction ops generalizing s with
  | nil => simp [after, SolvedSince, LoadedDuring]
  | cons op ops ih =>
    have hfirst := isSome_lastRun?_perform op s
    rw [show after (op :: ops) s = after ops (perform op s).2 from rfl, ih, hfirst,
      solvedSince_cons, loadedDuring_cons]
    grind

/-- **After any history** of a session, the result of its last search, if it has one, is one of its
instance: the assignment covers the variables, the counts are its own and no more than there are
clauses, and the moves are those of all levels. So the figures of the search can be told, they sum
up to the clauses and agree with the best solution; and that there are none is the answer exactly
if no search has succeeded since an instance was last loaded. -/
theorem sound_history (strategy : Strategy F) (source : ρ) (ops : List (Op F ρ)) :
    let fresh : Session F ρ := { source, strategy }
    let s := after ops fresh
    (∀ r, s.lastRun? = some r → ∃ inst, s.inst? = some inst ∧
      r.best.assignment.size = inst.numVars ∧
      inst.countUnsatisfied r.best.assignment = .ok r.best.unsatisfied ∧
      r.best.unsatisfied ≤ inst.numClauses ∧
      r.best.weight = inst.weightOf r.best.assignment ∧
      r.iterations = r.levels * r.schedule.iterationsPerTemperature) ∧
    (∀ f, s.completeSummary ≠ .error (.fault f)) ∧
    (∀ summary, s.completeSummary = .ok summary →
      ∃ inst solution, s.inst? = some inst ∧ s.bestSolution = .ok solution ∧
        summary.satisfied + summary.unsatisfied = inst.numClauses ∧
        summary.instanceId = inst.name ∧ solution.instanceId = inst.name ∧
        solution.bestWeight = summary.bestWeight) ∧
    (s.completeSummary = .error (.error .noSolution) ↔ ¬ SolvedSince ops fresh) ∧
    (s.bestSolution = .error (.error .noSolution) ↔ ¬ SolvedSince ops fresh) := by
  intro fresh s
  have hfresh : fresh.Sound := by
    intro task r htask
    cases htask
  have hs : s.Sound := hfresh.after ops
  have hsolved : s.lastRun?.isSome ↔ SolvedSince ops fresh := by
    simpa [lastRun?, fresh] using isSome_lastRun?_after ops fresh
  rw [← hsolved]
  cases hlast : s.lastRun? with
  | none =>
    have hfinished := finished_eq_error hlast
    have hsummary : s.completeSummary = .error (.error .noSolution) := by
      unfold completeSummary
      rw [hfinished]
      rfl
    have hsolution : s.bestSolution = .error (.error .noSolution) := by
      unfold bestSolution
      rw [hfinished]
      rfl
    simp [hsummary, hsolution]
  | some r =>
    obtain ⟨inst, hinst, hr, hsolution, hsummary⟩ := hs.summaries hlast
    have hle := hr.best.unsatisfied_le
    refine ⟨?_, ?_, ?_, ?_, ?_⟩
    · intro r' hr'
      obtain rfl := Option.some.inj hr'
      exact ⟨inst, hinst, hr.best.size_eq, hr.best.countUnsatisfied_eq, hle, hr.best.weight_eq,
        hr.iterations_eq⟩
    · simp [hsummary]
    · intro summary h
      rw [hsummary] at h
      obtain rfl := Except.ok.inj h
      exact ⟨inst, _, hinst, hsolution, Nat.sub_add_cancel hle, rfl, rfl, rfl⟩
    · simp [hsummary]
    · simp [hsolution]

/-- Loading an instance and searching it. -/
def pairHistory : List (Op Float WordCycle) :=
  [.setInstance pairInstance, .solve (.explicit pairSchedule) (none : Option (RowLog Float)),
    .completeSummary]

/-- The session after them. -/
def solvedSession : Session Float WordCycle :=
  after pairHistory { source := allOnes, strategy := .noise }

theorem pairHistory_ends :
    solvedSession.lastRun?.map (fun r => (r.levels, r.iterations)) = some (1, 2) ∧
      solvedSession.completeSummary.toOption.map (·.satisfied) = some 2 := by
  decide +kernel

theorem sound_history_pair :
    ∃ inst r summary solution,
      solvedSession.inst? = some inst ∧ solvedSession.lastRun? = some r ∧
      solvedSession.completeSummary = .ok summary ∧ solvedSession.bestSolution = .ok solution ∧
      r.best.assignment.size = inst.numVars ∧
      inst.countUnsatisfied r.best.assignment = .ok r.best.unsatisfied ∧
      r.levels = 1 ∧ 2 = 1 * r.schedule.iterationsPerTemperature ∧
      summary.satisfied = 2 ∧ 2 + summary.unsatisfied = inst.numClauses ∧
      solution.instanceId = summary.instanceId ∧ solution.bestWeight = summary.bestWeight ∧
      SolvedSince pairHistory { source := allOnes, strategy := .noise } := by
  obtain ⟨hlast, hcomplete⟩ := pairHistory_ends
  obtain ⟨r, hr, hmoves⟩ := Option.map_eq_some_iff.mp hlast
  obtain ⟨hlevels, hiterations⟩ := Prod.mk.inj hmoves
  obtain ⟨summary, hsummary, hsatisfied⟩ := exists_ok_of_map hcomplete
  obtain ⟨hruns, -, hsummaries, hnone, -⟩ := sound_history .noise allOnes pairHistory
  obtain ⟨inst, hinst, hsize, hcount, -, -, htotal⟩ := hruns r hr
  obtain ⟨inst', solution, hinst', hsolution, hclauses, hname, hname', hweight⟩ :=
    hsummaries summary hsummary
  obtain rfl := Option.some.inj (hinst.symm.trans hinst')
  rw [hlevels, hiterations] at htotal
  rw [hsatisfied] at hclauses
  refine ⟨inst, r, summary, solution, hinst, hr, hsummary, hsolution, hsize, hcount, hlevels,
    htotal, hsatisfied, hclauses, hname'.trans hname.symm, hweight, ?_⟩
  refine Classical.byContradiction fun hunsolved => ?_
  cases hsummary.symm.trans (hnone.mpr hunsolved)

end Session

end WeightedSat
