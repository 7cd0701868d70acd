import WeightedSat.Neighbor
import WeightedSat.Objective

/-!
# Trials

One move of the annealing walk.  A neighbour of the current position is drawn and evaluated, and
it is accepted or not by the rule of Metropolis: always if it does not raise the energy, and
otherwise with the probability `exp (-delta / temperature)`.

## Main definitions

* `Position F`: an assignment with its evaluation.
* `accepts`: the acceptance rule.
* `Trial F`: a candidate and whether it was accepted; `Objective.attempt` makes one.
-/

namespace WeightedSat

/-- **Position**: an assignment with its evaluation. -/
structure Position (F : Type) extends Evaluation F where
  assignment : Assignment
deriving DecidableEq, Repr

/-- **Trial**: a move that was tried, the position that it leads to, and the decision on it. -/
structure Trial (F : Type) where
  move : Move
  candidate : Position F
  /-- Whether the candidate has strictly lower energy than the position that it was tried from. -/
  improving : Bool
  accepted : Bool
deriving DecidableEq, Repr

/-- The position after a trial. -/
def Trial.next {F : Type} (p : Position F) (t : Trial F) : Position F :=
  if t.accepted then t.candidate else p

variable {F ρ ε : Type} [Scalar F] [WordSource ρ]

/-- **Acceptance**: whether a change of energy is accepted at a temperature.  A change that is not
positive is accepted without a draw. -/
def accepts (delta temperature : F) : EStateM ε ρ Bool :=
  if Scalar.le delta 0.0 then pure true
  else do
    let u : F ← WordSource.unit
    pure (Scalar.lt u (Scalar.exp (-delta / temperature)))

/-- One trial from a position. -/
def Objective.attempt (o : Objective F) (strategy : Strategy F) (temperature : F)
    (p : Position F) : EStateM Fault ρ (Trial F) := do
  let proposal ← strategy.neighbor o.inst p.assignment
  let evaluation ← MonadExcept.ofExcept (o.evaluate proposal.candidate)
  let delta := evaluation.energy - p.energy
  let accepted ← accepts delta temperature
  pure {
    move := proposal.move
    candidate := { evaluation with assignment := proposal.candidate }
    improving := Scalar.lt delta 0.0
    accepted }

end WeightedSat
