import WeightedSat.Record.Trace

/-!
# Media

What texts are written to: a medium takes bytes up to its limit, if it has one.  Of a text that
does not fit, the bytes that fit are taken before the write fails.
-/

namespace WeightedSat

/-- **Medium**: the bytes taken so far, the most that can be taken, and the number of times that
the bytes were flushed. -/
structure Medium where
  bytes : ByteArray := .empty
  limit : Option Nat := none
  flushes : Nat := 0

namespace Medium

/-- Writes a text. -/
def write (text : String) : EStateM WriteError Medium Unit := fun m =>
  let new := text.toUTF8
  match m.limit with
  | none => .ok () { m with bytes := m.bytes ++ new }
  | some limit =>
    let room := limit - m.bytes.size
    if new.size ≤ room then .ok () { m with bytes := m.bytes ++ new }
    else .error .diskFull { m with bytes := m.bytes ++ new.extract 0 room }

/-- The medium after its bytes have been handed on. -/
def flush (m : Medium) : Medium := { m with flushes := m.flushes + 1 }

end Medium

end WeightedSat
