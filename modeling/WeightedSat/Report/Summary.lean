import WeightedSat.Literal

/-!
# Summaries

The two lines that a finished search leaves behind: its figures, separated by commas, and its best
assignment, as signed codes ended by a zero.
-/

namespace WeightedSat

/-- **Run summary**: the figures of a finished search. -/
structure RunSummary where
  instanceId : String
  bestWeight : Nat
  satisfied : Nat
  unsatisfied : Nat
  totalSteps : Nat
deriving DecidableEq, Repr

/-- The figures in a line, separated by commas.  The identifier is written as it is. -/
def RunSummary.line (s : RunSummary) : String :=
  s.instanceId ++ "," ++ toString s.bestWeight ++ "," ++ toString s.satisfied ++ ","
    ++ toString s.unsatisfied ++ "," ++ toString s.totalSteps ++ "\n"

/-- **Best solution**: the best assignment of a finished search. -/
structure BestSolution where
  instanceId : String
  bestWeight : Nat
  assignment : Assignment
deriving DecidableEq, Repr

/-- The signed codes of an assignment whose first variable has number `v`. -/
def codesFrom (v : Nat) : List Bool → List Int
  | [] => []
  | b :: bs => Literal.code ⟨v, b⟩ :: codesFrom (v + 1) bs

/-- The signed codes of the assignment, in the order of the variables. -/
def BestSolution.codes (s : BestSolution) : List Int := codesFrom 0 s.assignment.toList

/-- The identifier, the weight and the signed codes of the assignment in a line, ended by a
zero. -/
def BestSolution.line (s : BestSolution) : String :=
  s.instanceId ++ " " ++ toString s.bestWeight
    ++ String.join (s.codes.map fun z => " " ++ toString z) ++ " 0\n"

end WeightedSat
