import WeightedSat.Record.Trace

/-!
# The recorder

A recorder follows a search.  It keeps the best state met so far, counts the moves tried, and hands
a row to its sink, if it has one, at the start and after each move.  A state replaces the best one
if its standing beats the standing of the best; of several that do not beat each other the first
is kept.

## Main definitions

* `Best`, `Snapshot`: the best state, and its standing at some step.
* `Recorder.start`, `Recorder.offer`, `Recorder.step`.
-/

namespace WeightedSat

/-- **Best**: an assignment with its standing. -/
structure Best extends Standing where
  assignment : Assignment
deriving DecidableEq, Repr

/-- **Snapshot**: the standing of the best state after some number of moves. -/
structure Snapshot extends Standing where
  step : Nat
deriving DecidableEq, Repr

/-- The energy of the best state. -/
def Best.energy {F : Type} [Scalar F] (b : Best) (o : Objective F) : F :=
  o.energyOf b.unsatisfied b.weight

/-- **Recorder**: the best state, the number of moves and the sink of the trace. -/
structure Recorder (σ : Type) where
  best : Best
  steps : Nat := 0
  /-- The number of clauses, from which a row derives its number of satisfied ones. -/
  numClauses : Nat
  sink : Option σ
deriving DecidableEq, Repr

namespace Recorder

variable {F σ : Type} [TraceSink F σ]

/-- Hands a row for the current state to the sink, if there is one.  More unsatisfied clauses than
clauses are a fault. -/
def emit (e : Evaluation F) : EStateM (Failure WriteError) (Recorder σ) Unit := fun r =>
  match r.sink with
  | none => .ok () r
  | some s =>
    if r.numClauses < e.unsatisfied then .error (.fault .subtractOverflow) r
    else
      let row : TraceRow F :=
        { e with step := r.steps, satisfied := r.numClauses - e.unsatisfied }
      match (TraceSink.record row).run s with
      | .ok _ s => .ok () { r with sink := some s }
      | .error w s => .error (.error w) { r with sink := some s }

/-- A recorder whose best state is the initial one, and which has handed over the row for it. -/
def start (a : Assignment) (e : Evaluation F) (numClauses : Nat) (sink : Option σ) :
    EStateM.Result (Failure WriteError) (Recorder σ) Unit :=
  (emit e).run { best := { e with assignment := a }, numClauses, sink }

/-- Offers a state, which becomes the best one if it beats it; whether it does. -/
def offer (a : Assignment) (s : Standing) (r : Recorder σ) : Bool × Recorder σ :=
  if s.beats r.best.toStanding then (true, { r with best := { s with assignment := a } })
  else (false, r)

/-- Counts a move and hands over the row for the state after it.  The move counts even if the row
is refused. -/
def step (e : Evaluation F) : EStateM (Failure WriteError) (Recorder σ) Unit := do
  let r ← get
  if maxCount ≤ r.steps then throw (.fault .addOverflow)
  set { r with steps := r.steps + 1 }
  emit e

/-- The standing of the best state, with the number of moves so far. -/
def snapshot (r : Recorder σ) : Snapshot :=
  { r.best with step := r.steps }

/-- A truth value as text. -/
def boolText (b : Bool) : String := if b then "true" else "false"

/-- The recorder as text, for diagnosis. -/
def describe (r : Recorder σ) : String :=
  let values := ", ".intercalate (r.best.assignment.toList.map boolText)
  "Recorder \x7b best: BestResult \x7b assignment: [" ++ values ++ "], unsatisfied: "
    ++ toString r.best.unsatisfied ++ ", weight: " ++ toString r.best.weight ++ " \x7d, steps: "
    ++ toString r.steps ++ ", tracing: " ++ boolText r.sink.isSome ++ " \x7d"

end Recorder

end WeightedSat
