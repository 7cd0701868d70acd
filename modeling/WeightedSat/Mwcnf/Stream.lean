import WeightedSat.LoadError
import WeightedSat.Text.Pieces

/-!
# Streams of lines

A stream is what a reader receives: some bytes, after which the source either ends or fails.
Lines end at the byte of the line feed.  If the source ends, what follows the last line feed is a
line too, unless it is empty; if the source fails, it is lost.
-/

namespace WeightedSat.Mwcnf

/-- **Stream**: the bytes that arrive, and whether the source fails after them. -/
structure Stream where
  bytes : List UInt8
  broken : Bool := false
deriving DecidableEq, Repr

/-- The line feed. -/
def lineFeed : UInt8 := 10

/-- The lines that a stream delivers before it ends or fails. -/
def Stream.lines (s : Stream) : List (List UInt8) :=
  let ps := Text.pieces (· == lineFeed) s.bytes
  if s.broken || ps.getLast? == some [] then ps.dropLast else ps

/-- The text of a line, unless its bytes are not valid UTF-8. -/
def decodeLine (line : List UInt8) : Except (Failure LoadError) String :=
  match String.fromUTF8? ⟨line.toArray⟩ with
  | some text => .ok text
  | none => .error (.error (.unreadable .notText))

/-- The stream that holds a text. -/
def Stream.ofString (text : String) : Stream :=
  ⟨text.toUTF8.data.toList, false⟩

end WeightedSat.Mwcnf
