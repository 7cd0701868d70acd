import WeightedSat.LoadError
import WeightedSat.Record.Trace
import WeightedSat.Schedule

/-!
# Why a search yields nothing

The causes for which a session does not answer, and their wording.
-/

namespace WeightedSat

/-- **Solve error**: why a session does not answer. -/
inductive SolveError (F : Type)
  | load (e : LoadError)
  | notLoaded
  | emptyInstance (c : EmptyCause)
  | invalidSchedule (e : ScheduleError F)
  | noSolution
  | trace (e : WriteError)
deriving DecidableEq, Repr

/-- The text for a solve error. -/
def SolveError.message : SolveError Float → String
  | .load e => "failed to load instance: " ++ e.message
  | .notLoaded => "no instance has been loaded"
  | .emptyInstance c => "the instance has " ++ c.text ++ ", nothing to search"
  | .invalidSchedule e => "invalid annealing parameters: " ++ e.message
  | .noSolution => "no solution available, run solve first"
  | .trace e => "failed to write trace record: " ++ e.message

end WeightedSat
