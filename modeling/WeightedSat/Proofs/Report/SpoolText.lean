import WeightedSat.Cli.Emission
import WeightedSat.Proofs.Report.TraceText

/-!
# The text of a spooled trace

A spool cuts the text of a trace into portions, and the log entries of the search stand between
them; but no byte is lost or moved. All that was handed on and what is still held back make the text
of the rows that the spool has been fed, and the portions among the emissions are those of the
spool, in order.

## Main definitions

* `Cli.rowsOf`: the bytes of the portions among emissions

## Main results

* `Spool.bytes_of_feed_start`: a spool that has been fed rows holds the text of the trace
* `Cli.rowsOf_interleave`: the log does not disturb the portions
-/

namespace WeightedSat

namespace Spool

variable {s t : Spool} {row : TraceRow Float} {rows : List (TraceRow Float)}

theorem bytes_of_write_each {step : Nat} {pieces : List String}
    (h : (pieces.forM (write step)).run s = .ok () t) :
    t.bytes = s.bytes ++ (String.join pieces).toUTF8 := by
  induction pieces generalizing s with
  | nil =>
    obtain ⟨-, rfl⟩ := EStateM.Result.ok.inj h
    rw [String.join_nil]
    exact ByteArray.append_empty.symm
  | cons piece pieces ih =>
    change (write step piece >>= fun _ => pieces.forM (write step)).run s = _ at h
    obtain ⟨_, s', hpiece, hrest⟩ := run_bind_eq_ok h
    have hjoin : (String.join (piece :: pieces)).toUTF8 =
        piece.toUTF8 ++ (String.join pieces).toUTF8 := by
      rw [String.join_cons]
      exact String.toByteArray_append
    rw [ih hrest, bytes_write hpiece, hjoin, ByteArray.append_assoc]

theorem bytes_of_record (h : (TraceSink.record row).run s = .ok () t) :
    t.bytes = s.bytes ++ row.line.toUTF8 :=
  bytes_of_write_each h

theorem bytes_of_feed (h : (feed rows).run (some s) = .ok () (some t)) :
    t.bytes = s.bytes ++ (linesText rows).toUTF8 := by
  induction rows generalizing s with
  | nil =>
    obtain rfl := Option.some.inj (EStateM.Result.ok.inj h).2
    exact ByteArray.append_empty.symm
  | cons row rows ih =>
    rw [run_feed_cons, run_hand_some] at h
    cases hrow : (TraceSink.record row).run s with
    | error w s' =>
      rw [hrow] at h
      cases h
    | ok _ s' =>
      rw [hrow] at h
      have hlines : (linesText (row :: rows)).toUTF8 =
          row.line.toUTF8 ++ (linesText rows).toUTF8 := by
        rw [linesText, List.map_cons, String.join_cons]
        exact String.toByteArray_append
      rw [ih h, bytes_of_record hrow, hlines, ByteArray.append_assoc]

/-- **A spool that has been fed rows** from its start on holds the text of the trace. -/
theorem bytes_of_feed_start {refusal : Option FileError}
    (h : (feed rows).run (some (start refusal)) = .ok () (some t)) :
    t.bytes = (traceText rows).toUTF8 := by
  have hstart : (start refusal).bytes = traceHeader.toUTF8 := ByteArray.empty_append
  rw [bytes_of_feed h, hstart]
  exact String.toByteArray_append.symm

end Spool

namespace Cli

/-- The bytes of the portions among emissions, one after the other. -/
def rowsOf : List Emission → ByteArray
  | [] => .empty
  | .entry _ :: rest => rowsOf rest
  | .rows bytes :: rest => bytes ++ rowsOf rest

theorem rowsOf_portions_append (portions : List Portion) (rest : List Emission) :
    rowsOf (portions.map (fun p => .rows p.bytes) ++ rest) =
      Spool.joined portions ++ rowsOf rest := by
  induction portions with
  | nil => exact ByteArray.empty_append.symm
  | cons p portions ih =>
    rw [List.map_cons, List.cons_append, rowsOf, ih, Spool.joined, ByteArray.append_assoc]

/-- **The log does not disturb the portions** of a trace. -/
theorem rowsOf_interleave (portions : List Portion) (log : List (Event Float)) :
    rowsOf (interleave portions log) = Spool.joined portions := by
  induction log generalizing portions with
  | nil =>
    have h := rowsOf_portions_append portions []
    rwa [List.append_nil, rowsOf, ByteArray.append_empty] at h
  | cons e log ih =>
    rw [interleave, rowsOf_portions_append, rowsOf, ih, ← Spool.joined_append,
      List.takeWhile_append_dropWhile]

end Cli

end WeightedSat
