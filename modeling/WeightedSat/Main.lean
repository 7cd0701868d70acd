import WeightedSat.Cli.Program

/-!
# The executable

The program on the host that it runs on: its files, its standard output and its error output.
-/

namespace WeightedSat.Cli

/-- The number of a system error, which some operations report with the opposite sign. -/
def errorNumber (code : UInt32) : Nat := min code.toNat (0 - code).toNat

/-- The cause that the system reports by a number and a text. -/
def systemError (code : UInt32) (details : String) : FileError :=
  match errorNumber code with
  | 2 => .notFound
  | 6 => .notAttached
  | 12 => .outOfMemory
  | 13 => .notPermitted
  | 20 => .notDirectory
  | 21 => .isDirectory
  | 28 => .noSpace
  | 36 => .nameTooLong
  | n => .other (details ++ " (os error " ++ toString n ++ ")")

/-- The cause of a failed file operation. -/
def fileError : IO.Error → FileError
  | .noFileOrDirectory .. => .notFound
  | .noSuchThing _ code details | .inappropriateType _ code details
  | .invalidArgument _ code details | .resourceExhausted _ code details
  | .permissionDenied _ code details | .hardwareFault code details
  | .resourceBusy code details | .otherError code details => systemError code details
  | e => .other (toString e)

instance : Host IO where
  readFile path := do
    try
      let bytes ← IO.FS.readBinFile path
      pure (.ok bytes)
    catch e => pure (.error (fileError e))
  openFile keep path := do
    try
      let _ ← IO.FS.Handle.mk path (if keep then .append else .write)
      pure (.ok none)
    catch e => pure (.error (fileError e))
  append path bytes := do
    try
      let handle ← IO.FS.Handle.mk path .append
      handle.write bytes
      handle.flush
      pure (.ok ())
    catch e => pure (.error (fileError e))
  print text := do
    let out ← IO.getStdout
    out.putStr text
    out.flush
  logLine line := do
    let err ← IO.getStderr
    err.putStrLn line

end WeightedSat.Cli

/-- Runs the program on the arguments of the process. -/
def main (args : List String) : IO UInt32 := do
  let bytes ← IO.getRandomBytes 8
  let entropy := bytes.data.foldl (fun n b => 256 * n + b.toUInt64) 0
  WeightedSat.Cli.execute args entropy
