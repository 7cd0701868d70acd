/-!
# Errors of the file system

Why a file cannot be opened, read or written, in the words and error numbers of the operating
system.
-/

namespace WeightedSat

/-- **File error**: why a file cannot be opened, read or written. -/
inductive FileError
  | notFound
  /-- A device is known to the system, but nothing is attached to it. -/
  | notAttached
  | outOfMemory
  | notPermitted
  | notDirectory
  | isDirectory
  | noSpace
  /-- A path, or a name in it, has too many bytes. -/
  | nameTooLong
  /-- A path has a character that ends texts, and which the system is not even asked about. -/
  | zeroInPath
  /-- Any other cause, by its text. -/
  | other (text : String)
deriving DecidableEq, Repr

/-- The text for a file error. -/
def FileError.message : FileError → String
  | .notFound => "No such file or directory (os error 2)"
  | .notAttached => "No such device or address (os error 6)"
  | .outOfMemory => "Cannot allocate memory (os error 12)"
  | .notPermitted => "Permission denied (os error 13)"
  | .notDirectory => "Not a directory (os error 20)"
  | .isDirectory => "Is a directory (os error 21)"
  | .noSpace => "No space left on device (os error 28)"
  | .nameTooLong => "File name too long (os error 36)"
  | .zeroInPath => "file name contained an unexpected NUL byte"
  | .other text => text

end WeightedSat
