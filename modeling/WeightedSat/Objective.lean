import WeightedSat.Instance
import WeightedSat.Scalar
import WeightedSat.Standing

/-!
# The objective

The energy of an assignment is a penalty for each clause that it leaves unsatisfied plus the gap
between its weight and the full weight, both measured in the average weight of a variable:

```text
energy = (unsatisfied * penalty + (ideal weight - weight)) / average weight
```

Lower is better.  The default penalty is the sum of all weights, so that no gap in weight outweighs
a clause.

## Main definitions

* `Objective F`: an instance that admits an energy, with a penalty.
* `Objective.energyOf`, `Objective.evaluate`.
-/

namespace WeightedSat

/-- **Empty cause**: what an instance lacks for a search. -/
inductive EmptyCause
  | variables
  | totalWeight
  | clauses
deriving DecidableEq, Repr

/-- The name of what is lacking. -/
def EmptyCause.text : EmptyCause → String
  | .variables => "zero variables"
  | .totalWeight => "zero total weight"
  | .clauses => "zero clauses"

/-- **Evaluation**: the energy of an assignment, with the standing that it comes from. -/
structure Evaluation (F : Type) extends Standing where
  energy : F
deriving DecidableEq, Repr

/-- **Objective**: an instance with variables and weight, and the penalty of a clause. -/
structure Objective (F : Type) where
  inst : Instance
  penalty : F
  /-- The weight of the assignment that sets every variable, kept at hand. -/
  idealWeight : Nat
  idealWeight_eq : idealWeight = inst.totalWeight
  numVars_ne_zero : inst.numVars ≠ 0
  totalWeight_ne_zero : inst.totalWeight ≠ 0

namespace Objective

variable {F : Type}

/-- The objective with a given penalty, unless the instance lacks variables or weight. -/
def withPenalty (inst : Instance) (penalty : F) : Except EmptyCause (Objective F) :=
  if hv : inst.numVars = 0 then .error .variables
  else if hw : inst.totalWeight = 0 then .error .totalWeight
  else .ok ⟨inst, penalty, inst.totalWeight, rfl, hv, hw⟩

variable [Scalar F]

/-- The objective whose penalty is the sum of all weights. -/
def ofInstance (inst : Instance) : Except EmptyCause (Objective F) :=
  withPenalty inst (Scalar.ofCount inst.totalWeight)

theorem eq_of_ofInstance {inst : Instance} {o : Objective F} (h : ofInstance inst = .ok o) :
    o.inst = inst ∧ o.penalty = Scalar.ofCount inst.totalWeight := by
  unfold ofInstance withPenalty at h
  split at h
  · cases h
  · split at h
    · cases h
    · obtain rfl := Except.ok.inj h
      exact ⟨rfl, rfl⟩

/-- The default penalty, whatever the penalty in use. -/
def basePenalty (o : Objective F) : F := Scalar.ofCount o.idealWeight

/-- The average weight of a variable, the unit of energy. -/
def averageWeight (o : Objective F) : F :=
  Scalar.ofCount o.idealWeight / Scalar.ofCount o.inst.numVars

/-- The energy for a number of unsatisfied clauses and a weight.  A weight above the ideal one
counts as the ideal one. -/
def energyOf (o : Objective F) (unsatisfied weight : Nat) : F :=
  (Scalar.ofCount unsatisfied * o.penalty + Scalar.ofCount (o.idealWeight - weight))
    / o.averageWeight

/-- The evaluation of an assignment; a fault if it is too short to be evaluated. -/
def evaluate (o : Objective F) (a : Assignment) : Except Fault (Evaluation F) :=
  match o.inst.countUnsatisfied a with
  | .error f => .error f
  | .ok unsatisfied =>
    let weight := o.inst.weightOf a
    .ok { unsatisfied, weight, energy := o.energyOf unsatisfied weight }

/-- The evaluation of an assignment that covers the variables. -/
def score (o : Objective F) (a : Assignment) : Evaluation F :=
  let unsatisfied := o.inst.numUnsatisfied a
  let weight := o.inst.weightOf a
  { unsatisfied, weight, energy := o.energyOf unsatisfied weight }

theorem evaluate_eq_ok (o : Objective F) {a : Assignment} (ha : o.inst.numVars ≤ a.size) :
    o.evaluate a = .ok (o.score a) := by
  simp only [evaluate, o.inst.countUnsatisfied_eq_ok ha, score]

end Objective

end WeightedSat
