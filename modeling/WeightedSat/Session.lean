import WeightedSat.Anneal.Search
import WeightedSat.Mwcnf.Reader
import WeightedSat.Report.Summary

/-!
# Sessions

A session owns a word source and a strategy, and at most one task: an instance together with the
result of the last search on it.  Loading replaces the task and so forgets the result; whatever
fails leaves the task as it was.

## Main definitions

* `Session F ρ`, `Task F`.
* `Session.load`, `Session.setInstance`, `Session.solve`.
* `Session.bestSolution`, `Session.completeSummary`: the last result, as lines report it.
-/

namespace WeightedSat

/-- **Task**: an instance and the result of the last search on it. -/
structure Task (F : Type) where
  inst : Instance
  lastRun : Option (RunResult F) := none
deriving DecidableEq, Repr

/-- **Session**: a source, a strategy, perhaps a task, and what was said so far. -/
structure Session (F ρ : Type) where
  source : ρ
  strategy : Strategy F
  task : Option (Task F) := none
  log : Array (Event F) := #[]

/-- **Solved**: a session after a search, with the outcome of the search and its sink. -/
structure Solved (F ρ σ : Type) where
  outcome : Except (Failure (SolveError F)) (RunResult F)
  session : Session F ρ
  sink : Option σ

namespace Session

variable {F ρ σ : Type}

/-- Replaces the task by an instance without a result. -/
def setInstance (inst : Instance) (s : Session F ρ) : Session F ρ :=
  { s with
    task := some { inst }
    log := s.log.push (.loaded inst.name inst.numVars inst.numClauses) }

/-- Reads an instance and makes it the task. -/
def load (reading : Mwcnf.Reading Instance) :
    EStateM (Failure (SolveError F)) (Session F ρ) Unit := fun s =>
  match reading.run #[] with
  | .error e notices => .error (e.map .load) { s with log := s.log ++ notices.map .reading }
  | .ok inst notices =>
    .ok () (setInstance inst { s with log := s.log ++ notices.map .reading })

/-- Replaces the source. -/
def setSource (source : ρ) (s : Session F ρ) : Session F ρ := { s with source }

/-- The instance of the task. -/
def inst? (s : Session F ρ) : Option Instance := s.task.map (·.inst)

/-- The result of the last search on the instance. -/
def lastRun? (s : Session F ρ) : Option (RunResult F) := s.task.bind (·.lastRun)

/-- Searches the instance of the task.  That there is one is looked at first, then its variables
and its weight, and then whatever a search looks at.  The result is kept if there is one. -/
def solve [Scalar F] [WordSource ρ] [TraceSink F σ] (mode : Mode F) (sink : Option σ)
    (s : Session F ρ) : Solved F ρ σ :=
  match s.task with
  | none => ⟨.error (.error .notLoaded), s, sink⟩
  | some task =>
    match Objective.ofInstance task.inst with
    | .error c => ⟨.error (.error (.emptyInstance c)), s, sink⟩
    | .ok objective =>
      let ended := anneal objective s.strategy (mode.resolve task.inst) s.source sink
      let s := { s with source := ended.source, log := s.log ++ ended.log }
      match ended.outcome with
      | .error e => ⟨.error e, s, ended.sink⟩
      | .ok run =>
        ⟨.ok run, { s with task := some { task with lastRun := some run } }, ended.sink⟩

/-- The instance with the result of the last search on it. -/
def finished (s : Session F ρ) : Except (Failure (SolveError F)) (Instance × RunResult F) :=
  match s.task with
  | some { inst, lastRun := some run } => .ok (inst, run)
  | _ => .error (.error .noSolution)

/-- The best assignment of the last search. -/
def bestSolution (s : Session F ρ) : Except (Failure (SolveError F)) BestSolution := do
  let (inst, run) ← s.finished
  pure {
    instanceId := inst.name
    bestWeight := run.best.weight
    assignment := run.best.assignment }

/-- The figures of the last search. -/
def completeSummary (s : Session F ρ) : Except (Failure (SolveError F)) RunSummary := do
  let (inst, run) ← s.finished
  if inst.numClauses < run.best.unsatisfied then throw (.fault .subtractOverflow)
  pure {
    instanceId := inst.name
    bestWeight := run.best.weight
    satisfied := inst.numClauses - run.best.unsatisfied
    unsatisfied := run.best.unsatisfied
    totalSteps := run.iterations }

end Session

end WeightedSat
