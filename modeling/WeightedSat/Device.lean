import WeightedSat.FileError

/-!
# Devices

Some paths lead to devices: they are opened, read and written like files, but keep no bytes.
-/

namespace WeightedSat

/-- **Device**: what a path leads to that is neither a file nor a directory. -/
inductive Device
  /-- Gives nothing and takes everything. -/
  | null
  /-- Gives zeros without end and takes everything. -/
  | zeros
  /-- Gives zeros without end and takes nothing, like a disk without room. -/
  | full
  /-- Gives bytes that make no text and takes everything. -/
  | noise
  /-- The terminal, of which there is none. -/
  | terminal
  /-- The input of the program, which is empty. -/
  | input
  /-- The place of the program's answer. -/
  | answer
  /-- The place of the program's log. -/
  | log
deriving DecidableEq, Repr

namespace Device

/-- The bytes that a device gives until it ends.  Zeros without end exhaust the memory. -/
def read : Device → Except FileError ByteArray
  | .zeros | .full => .error .outOfMemory
  | .terminal => .error .notAttached
  -- No byte of a text is 255.
  | .noise => .ok ⟨#[255]⟩
  | .null | .input | .answer | .log => .ok .empty

/-- The error, if any, of opening a device for writing. -/
def openError? : Device → Option FileError
  | .terminal => some .notAttached
  | _ => none

/-- The error, if any, with which an opened device refuses every byte. -/
def refusal? : Device → Option FileError
  | .full => some .noSpace
  | _ => none

/-- The devices of a file system, with the names that lead to them from its root. -/
def places : List (List String × Device) :=
  [(["dev", "null"], .null),
   (["dev", "zero"], .zeros),
   (["dev", "full"], .full),
   (["dev", "random"], .noise),
   (["dev", "urandom"], .noise),
   (["dev", "tty"], .terminal),
   (["dev", "stdin"], .input),
   (["dev", "stdout"], .answer),
   (["dev", "stderr"], .log),
   (["proc", "self", "fd", "0"], .input),
   (["proc", "self", "fd", "1"], .answer),
   (["proc", "self", "fd", "2"], .log)]

end Device

end WeightedSat
