/-!
# Severities

How loudly something is said: warnings are always shown, the rest on demand.
-/

namespace WeightedSat

/-- **Severity**: how loudly a remark is made. -/
inductive Severity
  | warning
  | info
  | debug
deriving DecidableEq, Repr

end WeightedSat
