import WeightedSat.Report.Spool
import WeightedSat.Session

/-!
# Emissions

While a search goes on, two things leave the program: portions of the trace and entries of the log.
They may go to the same place, so their order counts.  The search itself keeps the two apart; an
entry tells which moves it comes after, and a portion in the row of which move it ends, and so the
one order of both is found when the search is over.
-/

namespace WeightedSat.Cli

/-- **Emission**: what leaves the program while a search goes on. -/
inductive Emission
  /-- A portion of the trace, in bytes. -/
  | rows (bytes : ByteArray)
  | entry (e : Event Float)

/-- Portions of a trace and entries of a log in the order in which they arose. -/
def interleave (portions : List Portion) : List (Event Float) → List Emission
  | [] => portions.map fun p => .rows p.bytes
  | e :: es =>
    let before := portions.takeWhile fun p => e.follows p.step
    let after := portions.dropWhile fun p => e.follows p.step
    before.map (fun p => .rows p.bytes) ++ .entry e :: interleave after es

/-- The emissions of a search that is over. -/
def emissions {ρ : Type} (solved : Solved Float ρ Spool) : List Emission :=
  let portions := match solved.sink with
    | none => []
    | some spool => spool.portions.toList
  interleave portions solved.session.log.toList

end WeightedSat.Cli
