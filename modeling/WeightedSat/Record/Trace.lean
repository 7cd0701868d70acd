import WeightedSat.FileError
import WeightedSat.Objective

/-!
# Traces

A trace has one row for the initial state of a search and one for each move tried.  Rows go to a
sink, which may refuse a row; what the sink has become then is kept.

## Main definitions

* `TraceRow F`, `WriteError`.
* `TraceSink F σ`: values of type `σ` receive rows.
* `RowLog F`: a sink that keeps every row; `Quota`: one that takes a number of rows and then
  refuses.
-/

namespace WeightedSat

/-- **Trace row**: the state of a search after one step. -/
structure TraceRow (F : Type) extends Standing where
  step : Nat
  energy : F
  satisfied : Nat
deriving DecidableEq, Repr

/-- **Write error**: why a text or a row was not taken. -/
inductive WriteError
  | diskFull
  /-- The file that is written to refuses it. -/
  | file (e : FileError)
deriving DecidableEq, Repr

/-- The text for a write error. -/
def WriteError.message : WriteError → String
  | .diskFull => "disk full"
  | .file e => e.message

/-- **Trace sink**: rows are handed over one by one; a sink that refuses one still remains. -/
class TraceSink (F σ : Type) where
  record : TraceRow F → EStateM WriteError σ Unit

/-- **Row log**: the rows received so far. -/
structure RowLog (F : Type) where
  rows : Array (TraceRow F) := #[]
deriving DecidableEq, Repr

instance {F : Type} : TraceSink F (RowLog F) where
  record row := modify fun s => { s with rows := s.rows.push row }

/-- **Quota**: a number of rows that are still taken; every row after them is refused. -/
structure Quota where
  left : Nat
deriving DecidableEq, Repr

instance {F : Type} : TraceSink F Quota where
  record _ := do
    let s ← get
    if s.left = 0 then throw .diskFull
    set (Quota.mk (s.left - 1))

end WeightedSat
