import WeightedSat.Instance

/-!
# Documents

What the lines of a text in the MWCNF format say, before it is known whether they make an instance:
the numbers of the header, the weights and the codes of each clause.

## Main definitions

* `Document.toInstance`: the instance that a document makes.
* `Document.render`: the plainest text of a document, with single spaces, one line for each clause
  and a zero at the end of each list.
-/

namespace WeightedSat.Mwcnf

/-- **Document**: the contents of a text. -/
structure Document where
  numVars : Nat
  declaredClauses : Nat
  weights : List Nat
  clauses : List (List Int)
deriving DecidableEq, Repr

namespace Document

/-- The instance of a given name that a document makes. -/
def toInstance (d : Document) (name : String) : Except (Failure LoadError) Instance :=
  Instance.build name d.numVars (some d.declaredClauses) d.weights d.clauses

/-- The line of a list of numbers, ended by a zero. -/
def numbersLine (zs : List Int) : String :=
  String.join (zs.map fun z => toString z ++ " ") ++ "0\n"

/-- The line that announces the numbers of variables and clauses. -/
def headerLine (d : Document) : String :=
  "p mwcnf " ++ toString d.numVars ++ " " ++ toString d.declaredClauses ++ "\n"

/-- The line of the weights. -/
def weightsLine (d : Document) : String :=
  "w " ++ numbersLine (d.weights.map Int.ofNat)

/-- **Rendering**: the plainest text of a document. -/
def render (d : Document) : String :=
  d.headerLine ++ d.weightsLine ++ String.join (d.clauses.map numbersLine)

end Document

end WeightedSat.Mwcnf
