import WeightedSat.Anneal.Trial
import WeightedSat.Schedule

/-!
# The walk

The positions that a search passes through, as a function of the number of moves made.  Neither
the recorder nor the levels of the schedule take part in it: the temperature of a move follows
from its number, and a search is the walk up to the first frozen temperature.

## Main definitions

* `Objective.initial`: the random position that a walk starts from.
* `Objective.walk`: the position after a number of moves.
* `Objective.trialAt`: the move of a given number.
-/

namespace WeightedSat

variable {F ρ : Type} [Scalar F] [WordSource ρ]

/-- A number of fair coins. -/
def coins {ε : Type} : Nat → EStateM ε ρ (List Bool)
  | 0 => pure []
  | n + 1 => do
    let b ← WordSource.coin
    let bs ← coins n
    pure (b :: bs)

namespace Objective

variable (o : Objective F) (strategy : Strategy F) (s : Schedule F)

/-- The position that a walk starts from: one coin per variable, in order. -/
def initial : EStateM Fault ρ (Position F) := do
  let bits ← coins o.inst.numVars
  let assignment := bits.toArray
  let evaluation ← MonadExcept.ofExcept (o.evaluate assignment)
  pure { evaluation with assignment }

/-- **Walk**: the position after a number of moves. -/
def walk : Nat → EStateM Fault ρ (Position F)
  | 0 => o.initial
  | i + 1 => do
    let p ← walk i
    let t ← o.attempt strategy (s.temperatureAt i) p
    pure (t.next p)

/-- The move of a given number, from zero on. -/
def trialAt (i : Nat) : EStateM Fault ρ (Trial F) := do
  let p ← o.walk strategy s i
  o.attempt strategy (s.temperatureAt i) p

end Objective

end WeightedSat
