import WeightedSat.Anneal.Tally
import WeightedSat.Event
import WeightedSat.Record.Recorder
import WeightedSat.SolveError

/-!
# Results of a search

What a search reports when it is over.  A search that fails reports why, and in either case the
source, the sink and the log remain.
-/

namespace WeightedSat

/-- **Run result**: what a finished search reports. -/
structure RunResult (F : Type) where
  best : Best
  bestEnergy : F
  /-- The parameters in use. -/
  schedule : Schedule F
  /-- The number of moves tried. -/
  iterations : Nat
  /-- The number of temperature levels. -/
  levels : Nat
  finalTemperature : F
  tally : Tally
  /-- A bound on successive rejections, for comparison; the search does not heed it. -/
  stagnationBound : Nat
  /-- The best standing at the start and after each level. -/
  history : Array Snapshot
deriving DecidableEq, Repr

/-- **Ended**: a search that is over, with the source, the sink and the log as it leaves them. -/
structure Ended (F ρ σ : Type) where
  outcome : Except (Failure (SolveError F)) (RunResult F)
  source : ρ
  sink : Option σ
  log : Array (Event F) := #[]

end WeightedSat
