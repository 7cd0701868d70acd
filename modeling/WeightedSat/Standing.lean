/-!
# Standings

How good an assignment is, in whole numbers: the clauses that it leaves unsatisfied and its
weight.  One standing beats another if it leaves fewer clauses unsatisfied, or if both leave none
and it weighs more.  Standings that leave the same positive number of clauses unsatisfied do not
beat each other, whatever they weigh.
-/

namespace WeightedSat

/-- **Standing**: a number of unsatisfied clauses and a weight. -/
structure Standing where
  unsatisfied : Nat
  weight : Nat
deriving DecidableEq, Repr

/-- Whether one standing beats another. -/
def Standing.beats (s t : Standing) : Bool :=
  if s.unsatisfied ≠ t.unsatisfied then s.unsatisfied < t.unsatisfied
  else t.unsatisfied = 0 && t.weight < s.weight

theorem Standing.beats_iff {s t : Standing} :
    s.beats t = true ↔
      s.unsatisfied < t.unsatisfied ∨
        s.unsatisfied = 0 ∧ t.unsatisfied = 0 ∧ t.weight < s.weight := by
  unfold Standing.beats
  split
  · next h => simp; omega
  · next h => simp; omega

end WeightedSat
