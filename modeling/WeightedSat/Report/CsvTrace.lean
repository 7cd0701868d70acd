import WeightedSat.Decimal.Shortest
import WeightedSat.Report.Medium

/-!
# Traces as comma-separated values

A trace as a text: a header line, and a line of five fields for each row.
-/

namespace WeightedSat

/-- The line with the names of the fields. -/
def traceHeader : String := "step,energy,satisfied,unsatisfied,weight\n"

/-- The pieces in which the line of a row is written. -/
def TraceRow.pieces (row : TraceRow Float) : List String :=
  [toString row.step, ","] ++ Decimal.shortestPieces row.energy
    ++ [",", toString row.satisfied, ",", toString row.unsatisfied, ",", toString row.weight, "\n"]

/-- The line of a row. -/
def TraceRow.line (row : TraceRow Float) : String := String.join row.pieces

/-- **CSV trace**: a medium on which a header has been written and rows follow. -/
structure CsvTrace where
  medium : Medium

/-- A trace on a medium, from its header on; if the header does not fit, there is none. -/
def CsvTrace.start (m : Medium) : EStateM.Result WriteError Medium CsvTrace :=
  match (Medium.write traceHeader).run m with
  | .ok _ m => .ok ⟨m⟩ m
  | .error e m => .error e m

/-- The trace after its lines have been handed on. -/
def CsvTrace.flush (s : CsvTrace) : CsvTrace := { s with medium := s.medium.flush }

instance : TraceSink Float CsvTrace where
  record row := fun s =>
    match (Medium.write row.line).run s.medium with
    | .ok _ medium => .ok () { s with medium }
    | .error e medium => .error e { s with medium }

end WeightedSat
