import WeightedSat.FileError
import WeightedSat.Text.Pieces

/-!
# Paths

A path is a text of names with slashes between them.  It starts at the root of the file system if
its first character is a slash, and otherwise at the working directory.

## Main definitions

* `Path.names`, `Path.stem`: the parts of a path, and the name that an instance takes from it.
* `Path.refusal?`: why the system does not even look for a file.
-/

namespace WeightedSat.Path

/-- The names of a path, in order. -/
def names (path : String) : List String :=
  ((Text.pieces (· == '/') path.toList).filter (!·.isEmpty)).map String.ofList

/-- Whether a path starts at the root. -/
def isAbsolute (path : String) : Bool := path.toList.head? == some '/'

/-- Whether a path ends in a slash, which asks for a directory. -/
def endsInSlash (path : String) : Bool := path.toList.getLast? == some '/'

/-- The path that starts at the root and leads where a path leads from a directory. -/
def below (directory : List String) (path : String) : String :=
  if isAbsolute path then path
  else String.join (directory.map ("/" ++ ·)) ++ "/" ++ path

/-- The last name of a path, up to its last dot unless nothing comes before that dot.  A name that
is a mere dot does not count, and a path that ends in two dots has no stem. -/
def stem (path : String) : String :=
  match ((names path).filter (· ≠ ".")).getLast? with
  | none => ""
  | some name =>
    if name = ".." then ""
    else
      let front := ((Text.pieces (· == '.') name.toList).dropLast.intersperse ['.']).flatten
      if front.isEmpty then name else String.ofList front

/-- The most bytes of a name. -/
def maxNameSize : Nat := 255

/-- The most bytes of a path. -/
def maxSize : Nat := 4095

/-- The error, if any, for which a path is refused before a file is looked for. -/
def refusal? (path : String) : Option FileError :=
  if path.toList.contains '\x00' then some .zeroInPath
  else if path.isEmpty then some .notFound
  else if maxSize < path.utf8ByteSize then some .nameTooLong
  else none

end WeightedSat.Path
