import WeightedSat.FileTree
import WeightedSat.Mwcnf.Reader

/-!
# Reading instances from files

An instance that is read from a file takes the stem of the path as its name.
-/

namespace WeightedSat.Mwcnf

/-- Reads the instance in the file at a path, given what the file system answers for it. -/
def load (path : String) (contents : Except FileError ByteArray) : Reading Instance :=
  match contents with
  | .error e => refuse (.unreadable (.file e))
  | .ok bytes => read ⟨bytes.data.toList, false⟩ (Path.stem path)

end WeightedSat.Mwcnf
