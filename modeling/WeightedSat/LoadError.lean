import WeightedSat.Count
import WeightedSat.Fault
import WeightedSat.FileError

/-!
# Why an instance cannot be loaded

The causes for which a text or a list of parts makes no instance, and their wording.
-/

namespace WeightedSat

/-- **Stream error**: why a stream of lines yields no further line. -/
inductive StreamError
  /-- A line is not valid UTF-8. -/
  | notText
  /-- The source of the bytes failed before it ended. -/
  | interrupted
  /-- The file cannot be opened or read. -/
  | file (e : FileError)
deriving DecidableEq, Repr

/-- The text for a stream error. -/
def StreamError.message : StreamError → String
  | .notText => "stream did not contain valid UTF-8"
  | .interrupted => "read failed"
  | .file e => e.message

/-- **Load error**: why no instance results. -/
inductive LoadError
  | unreadable (cause : StreamError)
  | missingHeader
  /-- The header line, trimmed, does not have the required form. -/
  | invalidHeader (line : String)
  | missingWeights
  | weightOverflow
  /-- The code names a variable outside the declared ones. -/
  | literalOutOfRange (code : Int) (numVars : Nat)
deriving DecidableEq, Repr

/-- The text for a load error. -/
def LoadError.message : LoadError → String
  | .unreadable cause => "failed to read instance, more details: " ++ cause.message
  | .missingHeader => "no valid 'p mwcnf <vars> <clauses>' line"
  | .invalidHeader line => "'" ++ line ++ "' is an invalid header"
  | .missingWeights => "no 'w' line with weights"
  | .weightOverflow => "the weights sum past " ++ toString maxCount
  | .literalOutOfRange code numVars =>
    "literal " ++ toString code ++ " refers to a variable outside 1..=" ++ toString numVars

end WeightedSat
