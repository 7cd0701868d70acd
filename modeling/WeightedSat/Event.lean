import WeightedSat.Decimal.Places
import WeightedSat.Mwcnf.Notice
import WeightedSat.Schedule

/-!
# Events

What the library says while it works, for a log.  An event is a datum; its text is made only where
it is shown.
-/

namespace WeightedSat

/-- **Event**: one entry of the log. -/
inductive Event (F : Type)
  | reading (n : Mwcnf.Notice)
  | loaded (name : String) (numVars numClauses : Nat)
  /-- A search begins. -/
  | annealing (name : String) (schedule : Schedule F) (stagnationBound : Nat)
  /-- A temperature level has ended after so many moves of the search, and the temperature is now
  the one given. -/
  | level (moves : Nat) (temperature energy : F) (unsatisfied bestUnsatisfied : Nat)
  | moves (accepted iterations improving longestStagnation : Nat)
  /-- A search has ended. -/
  | finished (name : String) (iterations weight unsatisfied : Nat)
deriving DecidableEq, Repr

/-- The severity of an event. -/
def Event.severity {F : Type} : Event F → Severity
  | .reading n => n.severity
  | .loaded .. | .annealing .. | .finished .. => .info
  | .level .. | .moves .. => .debug

/-- Whether an event comes after the move of a given number.  The events before a search come
before all of its moves, and before the initial state, which counts as the move zero. -/
def Event.follows {F : Type} (move : Nat) : Event F → Bool
  | .level n .. => move ≤ n
  | .moves .. | .finished .. => true
  | .reading _ | .loaded .. | .annealing .. => false

/-- The text of an event. -/
def Event.text : Event Float → String
  | .reading n => n.text
  | .loaded name numVars numClauses =>
    "loaded '" ++ name ++ "': " ++ toString numVars ++ " variables, " ++ toString numClauses
      ++ " clauses"
  | .annealing name s bound =>
    "annealing '" ++ name ++ "': T0=" ++ Decimal.placesText 4 s.initialTemperature ++ ", Tmin="
      ++ Decimal.placesText 4 s.minTemperature ++ ", alpha=" ++ Decimal.shortestText s.alpha
      ++ ", iters/T=" ++ toString s.iterationsPerTemperature ++ ", stagnation bound="
      ++ toString bound
  | .level _ temperature energy unsatisfied bestUnsatisfied =>
    "T=" ++ Decimal.placesText 6 temperature ++ " energy=" ++ Decimal.placesText 4 energy
      ++ " unsat=" ++ toString unsatisfied ++ " best_unsat=" ++ toString bestUnsatisfied
  | .moves accepted iterations improving longestStagnation =>
    "accepted " ++ toString accepted ++ "/" ++ toString iterations ++ " moves, "
      ++ toString improving ++ " improving, longest stagnation " ++ toString longestStagnation
  | .finished name iterations weight unsatisfied =>
    "finished '" ++ name ++ "' after " ++ toString iterations ++ " steps: weight="
      ++ toString weight ++ ", unsatisfied=" ++ toString unsatisfied

end WeightedSat
