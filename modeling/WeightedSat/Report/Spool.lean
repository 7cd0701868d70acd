import WeightedSat.Report.CsvTrace

/-!
# Spools

A trace does not reach its file row by row: a spool holds its text back and hands it on in
portions.  A portion ends where the next piece of a row would not fit, so it may end within a row,
and a file that refuses its bytes is noticed only then.

## Main definitions

* `Spool`, with `Spool.start` and `Spool.write`.
* `Spool.bytes`: the whole text, handed on or not.
-/

namespace WeightedSat

/-- **Portion**: bytes that are handed on together, while the row of some step is written. -/
structure Portion where
  step : Nat
  bytes : ByteArray

/-- **Spool**: the portions handed on, first one first, and the bytes held back. -/
structure Spool where
  /-- The error, if any, with which the file refuses every byte. -/
  refusal : Option FileError
  portions : Array Portion := #[]
  pending : ByteArray

namespace Spool

/-- The most bytes that are held back. -/
def capacity : Nat := 8192

/-- A spool that holds the line with the names of the fields. -/
def start (refusal : Option FileError) : Spool := { refusal, pending := traceHeader.toUTF8 }

/-- Writes a piece of the row of a step. -/
def write (step : Nat) (piece : String) : EStateM WriteError Spool Unit := fun s =>
  let new := piece.toUTF8
  if s.pending.size + new.size ≤ capacity then .ok () { s with pending := s.pending ++ new }
  else
    match s.refusal with
    | some e => .error (.file e) s
    | none => .ok () { s with portions := s.portions.push ⟨step, s.pending⟩, pending := new }

/-- The bytes of portions, one after the other. -/
def joined : List Portion → ByteArray
  | [] => .empty
  | p :: ps => p.bytes ++ joined ps

/-- All that was written, in order. -/
def bytes (s : Spool) : ByteArray := joined s.portions.toList ++ s.pending

theorem joined_append (ps qs : List Portion) : joined (ps ++ qs) = joined ps ++ joined qs := by
  induction ps with
  | nil => simp [joined]
  | cons p ps ih => simp [joined, ih, ByteArray.append_assoc]

theorem bytes_write {step : Nat} {piece : String} {s t : Spool}
    (h : (write step piece).run s = .ok () t) : t.bytes = s.bytes ++ piece.toUTF8 := by
  simp only [write, EStateM.run] at h
  split at h
  · cases h
    simp [bytes, ByteArray.append_assoc]
  · split at h
    · cases h
    · cases h
      simp [bytes, joined_append, joined, ByteArray.append_assoc]

end Spool

instance : TraceSink Float Spool where
  record row := row.pieces.forM (Spool.write row.step)

end WeightedSat
