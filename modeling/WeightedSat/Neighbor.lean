import WeightedSat.Instance
import WeightedSat.Random.Source

/-!
# Neighbours

A neighbour of an assignment differs from it in one variable.  If every clause is satisfied, the
variable is drawn from all variables.  Otherwise an unsatisfied clause is drawn, and the variable
is one of the clause: a random one (noise), or one whose flip leaves the fewest clauses
unsatisfied (greedy).  A strategy says which of the two.

## Main definitions

* `Strategy F`, `Move`, `Proposal`.
* `Instance.probe`: a flip that is counted and undone.
* `Instance.greedyVar`: the variable of a clause whose flip is best.
* `Strategy.neighbor`: a random neighbour.
-/

namespace WeightedSat

/-- **Strategy**: how a variable of an unsatisfied clause is chosen. -/
inductive Strategy (F : Type)
  /-- By noise with the given probability, greedily otherwise. -/
  | mixed (noise : F)
  | noise
  | greedy
deriving DecidableEq, Repr

/-- The strategy in use unless another is asked for: noise in half of the moves. -/
def Strategy.standard {F : Type} [Scalar F] : Strategy F := .mixed 0.5

/-- **Move**: the flip of a variable, with the way in which it was chosen. -/
inductive Move
  /-- Every clause being satisfied, any variable. -/
  | diversify (var : Nat)
  /-- A random variable of an unsatisfied clause. -/
  | noise (clause var : Nat)
  /-- The best variable of an unsatisfied clause. -/
  | greedy (clause var : Nat)
deriving DecidableEq, Repr

/-- The flipped variable. -/
def Move.var : Move → Nat
  | .diversify v => v
  | .noise _ v => v
  | .greedy _ v => v

/-- The clause that the move repairs, if any. -/
def Move.clause? : Move → Option Nat
  | .diversify _ => none
  | .noise j _ => some j
  | .greedy j _ => some j

/-- **Proposal**: a neighbour, with the move that leads to it. -/
structure Proposal where
  candidate : Assignment
  move : Move
deriving DecidableEq, Repr

/-- The assignment with one variable flipped; a fault if it does not reach the variable. -/
def flip (a : Assignment) (v : Nat) : Except Fault Assignment :=
  if v < a.size then .ok (a.modify v not) else .error (.indexOutOfBounds a.size v)

namespace Instance

/-- **Probe**: the number of clauses left unsatisfied once a variable of a scratch assignment has
been flipped, with the scratch after the flip was undone. -/
def probe (inst : Instance) (scratch : Assignment) (v : Nat) : Except Fault (Nat × Assignment) :=
  match flip scratch v with
  | .error f => .error f
  | .ok flipped =>
    match inst.countUnsatisfied flipped with
    | .error f => .error f
    | .ok n =>
      match flip flipped v with
      | .error f => .error f
      | .ok scratch => .ok (n, scratch)

/-- The variable whose flip leaves the fewest clauses unsatisfied, among `best`, whose flip leaves
`count`, and the variables of further literals; the first of several. All flips are probed on one
scratch, which is handed back. -/
def leastFlip (inst : Instance) (scratch : Assignment) (best count : Nat) :
    List Literal → Except Fault (Nat × Assignment)
  | [] => .ok (best, scratch)
  | l :: ls =>
    match inst.probe scratch l.var with
    | .error f => .error f
    | .ok (n, scratch) =>
      if n < count then inst.leastFlip scratch l.var n ls else inst.leastFlip scratch best count ls

/-- The variable of a clause whose flip leaves the fewest clauses unsatisfied, the first of
several in the order of the literals, with the scratch on which the flips were probed. -/
def greedyVar (inst : Instance) (scratch : Assignment) (c : Clause) :
    Except Fault (Nat × Assignment) :=
  let v := (c.literals.head c.literals_ne_nil).var
  match inst.probe scratch v with
  | .error f => .error f
  | .ok (n, scratch) => inst.leastFlip scratch v n c.literals.tail

end Instance

namespace Strategy

open WordSource (below unit)

variable {F ρ : Type} [Scalar F] [WordSource ρ]

/-- Whether a move is to be chosen by noise. -/
def noisy : Strategy F → EStateM Fault ρ Bool
  | .mixed p => do
    let u : F ← unit
    pure (Scalar.lt u p)
  | .noise => pure true
  | .greedy => pure false

/-- A random move from an assignment. The assignment is the scratch of a greedy choice, and is
handed back with the move. -/
def selectMove (s : Strategy F) (inst : Instance) (scratch : Assignment) :
    EStateM Fault ρ (Move × Assignment) := do
  let unsatisfied ← MonadExcept.ofExcept (inst.unsatisfiedClauses scratch)
  if unsatisfied.isEmpty then
    let v ← below inst.numVars
    pure (.diversify v, scratch)
  else
    let k ← below unsatisfied.length
    let j ← MonadExcept.ofExcept (fetch unsatisfied k)
    let c ← MonadExcept.ofExcept (inst.clause j)
    if ← s.noisy then
      let i ← below c.literals.length
      let l ← MonadExcept.ofExcept (fetch c.literals i)
      pure (.noise j l.var, scratch)
    else
      let (v, scratch) ← MonadExcept.ofExcept (inst.greedyVar scratch c)
      pure (.greedy j v, scratch)

/-- **Neighbour**: a random assignment that differs in one variable. What is flipped in the end is
the scratch that the choice of the move has left. -/
def neighbor (s : Strategy F) (inst : Instance) (a : Assignment) : EStateM Fault ρ Proposal := do
  let (move, scratch) ← s.selectMove inst a
  let candidate ← MonadExcept.ofExcept (flip scratch move.var)
  pure ⟨candidate, move⟩

end Strategy

end WeightedSat
