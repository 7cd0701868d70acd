import WeightedSat.Anneal.RunResult
import WeightedSat.Anneal.Walk

/-!
# The annealing search

A search starts from a random assignment and makes trials, a fixed number at each temperature of
the schedule, until the schedule is frozen.  All that it changes is a `Search`, and an error leaves
the search as it was when the error struck.

Each level counts at least one move, and the counter of moves has sixty-four bits; so no search has
more than `2 ^ 64` levels, which is the bound of the recursion in `Search.descend`.

## Main definitions

* `Search F ρ σ`: the state of a search over a source `ρ` and a sink `σ`.
* `Search.iterate`, `Search.sweep`, `Search.descend`: one move, one level, all levels.
* `anneal`: a whole search, as it has `Ended`.
-/

namespace WeightedSat

/-- **Search**: the state of a search. -/
structure Search (F ρ σ : Type) where
  source : ρ
  recorder : Recorder σ
  position : Position F
  temperature : F
  tally : Tally := {}
  /-- The number of levels that have ended. -/
  levels : Nat := 0
  /-- The best standing at the start and after each level. -/
  history : Array Snapshot
  log : Array (Event F)

namespace Search

variable {F ρ σ : Type}

/-- The search after a trial, before its row is handed over: the walk moves on if the trial was
accepted, and then the new position is offered to the recorder. -/
def settle (t : Trial F) (s : Search F ρ σ) : Search F ρ σ :=
  let recorder :=
    if t.accepted then (s.recorder.offer t.candidate.assignment t.candidate.toStanding).2
    else s.recorder
  { s with
    recorder
    position := t.next s.position
    tally := s.tally.add t.improving t.accepted }

/-- The end of a level: the temperature drops and the best standing is noted. -/
def endLevel [Scalar F] (schedule : Schedule F) (s : Search F ρ σ) : Search F ρ σ :=
  let temperature := schedule.cool s.temperature
  { s with
    temperature
    levels := s.levels + 1
    history := s.history.push s.recorder.snapshot
    log := s.log.push (.level s.recorder.steps temperature s.position.energy
      s.position.unsatisfied s.recorder.best.unsatisfied) }

variable [Scalar F] [WordSource ρ] [TraceSink F σ]

/-- One move. -/
def iterate (o : Objective F) (strategy : Strategy F) :
    EStateM (Failure WriteError) (Search F ρ σ) Unit := fun s =>
  match (o.attempt strategy s.temperature s.position).run s.source with
  | .error f source => .error (.fault f) { s with source }
  | .ok trial source =>
    let s := settle trial { s with source }
    match (Recorder.step s.position.toEvaluation).run s.recorder with
    | .error e recorder => .error e { s with recorder }
    | .ok _ recorder => .ok () { s with recorder }

/-- A number of moves at one temperature. -/
def sweep (o : Objective F) (strategy : Strategy F) :
    Nat → EStateM (Failure WriteError) (Search F ρ σ) Unit
  | 0 => pure ()
  | n + 1 => do
    iterate o strategy
    sweep o strategy n

/-- The levels that remain, up to the first frozen temperature.  No search outlasts the bound of
`2 ^ 64` levels, since the counter of moves leaves its range before. -/
def descend (o : Objective F) (strategy : Strategy F) (schedule : Schedule F) :
    Nat → EStateM (Failure WriteError) (Search F ρ σ) Unit
  | 0 => throw (.fault .addOverflow)
  | bound + 1 => do
    let s ← get
    if schedule.frozen s.temperature then pure ()
    else
      sweep o strategy schedule.iterationsPerTemperature
      modify (endLevel schedule)
      descend o strategy schedule bound

end Search

variable {F ρ σ : Type}

/-- A finished search, with its closing remarks. -/
def Search.close [Scalar F] (o : Objective F) (schedule : Schedule F) (stagnationBound : Nat)
    (s : Search F ρ σ) : Ended F ρ σ :=
  let best := s.recorder.best
  let iterations := s.recorder.steps
  { source := s.source
    sink := s.recorder.sink
    log := (s.log.push (.moves s.tally.accepted iterations s.tally.improving
        s.tally.longestStagnation)).push
      (.finished o.inst.name iterations best.weight best.unsatisfied)
    outcome := .ok {
      best
      bestEnergy := best.energy o
      schedule
      iterations
      levels := s.levels
      finalTemperature := s.temperature
      tally := s.tally
      stagnationBound
      history := s.history } }

/-- A search that was cut short. -/
def Search.abort (e : Failure WriteError) (s : Search F ρ σ) : Ended F ρ σ :=
  { outcome := .error (e.map .trace), source := s.source, sink := s.recorder.sink, log := s.log }

/-- **Annealing**: a search under a schedule.  The schedule is checked first and then that there
are clauses; neither check draws. -/
def anneal [Scalar F] [WordSource ρ] [TraceSink F σ] (o : Objective F) (strategy : Strategy F)
    (schedule : Schedule F) (source : ρ) (sink : Option σ) : Ended F ρ σ :=
  match schedule.check with
  | .error e => { outcome := .error (.error (.invalidSchedule e)), source, sink }
  | .ok _ =>
    if o.inst.numClauses = 0 then
      { outcome := .error (.error (.emptyInstance .clauses)), source, sink }
    else
      let stagnationBound := schedule.stagnationBound o.inst.numVars
      let log := #[Event.annealing o.inst.name schedule stagnationBound]
      match o.initial.run source with
      | .error f source => { outcome := .error (.fault f), source, sink, log }
      | .ok position source =>
        match Recorder.start position.assignment position.toEvaluation o.inst.numClauses sink with
        | .error e recorder =>
          { outcome := .error (e.map .trace), source, sink := recorder.sink, log }
        | .ok _ recorder =>
          let s : Search F ρ σ :=
            { source, recorder, position, log
              temperature := schedule.initialTemperature
              history := #[recorder.snapshot] }
          match (Search.descend o strategy schedule (maxCount + 1)).run s with
          | .error e s => s.abort e
          | .ok _ s => s.close o schedule stagnationBound

end WeightedSat
