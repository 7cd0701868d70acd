import WeightedSat.Severity

/-!
# Notices of the reader

What the reader has to say about a text beside the instance that it yields: lines that it skips,
formats that it does not know, counts that disagree.
-/

namespace WeightedSat.Mwcnf

/-- **Notice**: one remark of the reader. -/
inductive Notice
  /-- A line before the header is not a header line. -/
  | beforeHeader (line : String)
  /-- A line between header and weights is not a weights line. -/
  | beforeWeights (line : String)
  /-- The header names another format. -/
  | unexpectedFormat (format : String)
  /-- The weights line holds fewer weights than there are variables. -/
  | shortWeights (found numVars : Nat)
  /-- The header announces another number of clauses than were read. -/
  | clauseCount (declared found : Nat)
  /-- An instance has been read. -/
  | parsed (name : String) (numVars numClauses : Nat)
deriving DecidableEq, Repr

/-- The severity of a notice: all of them are warnings but the last. -/
def Notice.severity : Notice → Severity
  | .parsed .. => .debug
  | _ => .warning

/-- The text of a notice. -/
def Notice.text : Notice → String
  | .beforeHeader line => "ignoring line before header: '" ++ line ++ "'"
  | .beforeWeights line => "ignoring line before weights: '" ++ line ++ "'"
  | .unexpectedFormat format =>
    "unexpected instance format '" ++ format ++ "', reading as mwcnf"
  | .shortWeights found numVars =>
    "weights line has " ++ toString found ++ " of " ++ toString numVars
      ++ " weights, padding with zeros"
  | .clauseCount declared found =>
    "header declares " ++ toString declared ++ " clauses, parsed " ++ toString found
  | .parsed name numVars numClauses =>
    "parsed instance '" ++ name ++ "': " ++ toString numVars ++ " variables, "
      ++ toString numClauses ++ " clauses"

end WeightedSat.Mwcnf
