import WeightedSat.Cli.Arguments
import WeightedSat.Cli.Emission
import WeightedSat.Cli.Host
import WeightedSat.Mwcnf.File
import WeightedSat.Random.Keystream

/-!
# The program

One search, from the command line to the answer.  The instance is loaded, the summary file and the
trace file are opened, the search is made, the trace and then the summary are written, and the best
assignment is the answer.  Whatever fails ends the program there, with what has been opened left as
it is; the rows of an unfinished trace are written all the same.

The program is written over any host, so that what it does to files can be said of a file tree.
-/

namespace WeightedSat.Cli

/-- **Program error**: why there is no answer. -/
inductive ProgramError
  | solve (e : SolveError Float)
  /-- A file that is to be written cannot be opened. -/
  | openFile (path : String) (e : FileError)
  /-- An opened file cannot be written. -/
  | writeFile (e : FileError)

/-- The text for a program error. -/
def ProgramError.message : ProgramError → String
  | .solve e => e.message
  | .openFile path e => "failed to open '" ++ path ++ "': " ++ e.message
  | .writeFile e => "IO error, more details: " ++ e.message

/-- The number with which the program ends. -/
abbrev ExitCode := UInt32

/-- The name and version of the program. -/
def versionLine : String := "u-maxsat 0.1.0"

/-- The lines of a table with the names on the left and what they stand for on the right, which
starts behind the given number of characters. -/
def helpTable (width : Nat) (entries : List (String × String)) : String :=
  String.join (entries.map fun (name, about) =>
    "  " ++ String.ofList (name.toList.rightpad width ' ') ++ about ++ "\n")

/-- The positional arguments, with what they stand for. -/
def argumentHelp : List (String × String) :=
  [("<INSTANCE_PATH>", "The instance to solve, in the MWCNF format"),
   ("[TEMP_START]", "Start temperature"),
   ("[ALPHA]", "Cooling factor in (0, 1)"),
   ("[TEMP_MIN]", "Minimum temperature; the search stops once it is reached"),
   ("[ITERS_PER_TEMP]", "Number of moves tried at each temperature")]

/-- The options, with what they stand for. -/
def optionHelp : List (String × String) :=
  [("    --auto-tune", "Derive the annealing parameters from the instance instead"),
   ("    --output <OUTPUT>", "File the CSV result line is appended to"),
   ("    --trace <TRACE>", "File the per-step CSV trace is written to (truncated)"),
   ("    --seed <SEED>", "Seed of the random generator. Drawn from the OS when omitted"),
   ("-v, --verbose", "Enables debug logging"),
   ("-h, --help", "Print help"),
   ("-V, --version", "Print version")]

/-- What the help option shows. -/
def helpText : String :=
  "Simulated-annealing local search for Weighted MAX-SAT over MWCNF instances.\n\n"
    ++ "Usage: u-maxsat [OPTIONS] "
    ++ " ".intercalate (argumentHelp.map (·.1)) ++ "\n\n"
    ++ "Arguments:\n" ++ helpTable 18 argumentHelp ++ "\n"
    ++ "Options:\n" ++ helpTable 23 optionHelp

section

variable {m : Type → Type} [Monad m] [Host m]

/-- Shows a line of the log if it is loud enough: warnings always, all else on demand. -/
def showLine (verbose : Bool) (severity : Severity) (text : String) : m Unit :=
  if verbose || severity == .warning then Host.logLine ("c " ++ text) else pure ()

/-- Shows what a session has said, which the session then forgets. -/
def showLog {ρ : Type} (verbose : Bool) (s : Session Float ρ) : m (Session Float ρ) := do
  for e in s.log do
    showLine verbose e.severity e.text
  pure { s with log := #[] }

/-- **Attempt**: an action of the program, which may end the program. -/
abbrev Attempt (m : Type → Type) := ExceptT (Failure ProgramError) m

/-- What a session answers, unless it does not. -/
def orEnd {α : Type} (x : Except (Failure (SolveError Float)) α) : Attempt m α :=
  match x with
  | .ok a => pure a
  | .error e => throw (e.map .solve)

/-- Loads the instance at a path into a session. -/
def loadInstance {ρ : Type} (verbose : Bool) (path : String) (s : Session Float ρ) :
    Attempt m (Session Float ρ) := do
  let contents ← Host.readFile path
  match (Session.load (Mwcnf.load path contents)).run s with
  | .ok _ s => showLog verbose s
  | .error e s => do
    let _ ← showLog verbose s
    throw (e.map .solve)

/-- Opens a file for writing, and tells with which error it refuses every byte, if it does. -/
def openForWriting (keep : Bool) (path : String) : Attempt m (Option FileError) := do
  match ← Host.openFile keep path with
  | .ok refusal => pure refusal
  | .error e => throw (.error (.openFile path e))

/-- Opens the file of the summary, if one is asked for. -/
def openSummary : Option String → Attempt m Unit
  | none => pure ()
  | some path => do
    let _ ← openForWriting true path

/-- Opens the file of the trace, if one is asked for, and starts the trace. -/
def openTrace : Option String → Attempt m (Option Spool)
  | none => pure none
  | some path => do
    let refusal ← openForWriting false path
    pure (some (Spool.start refusal))

/-- Adds bytes to the end of an opened file, if there is one. -/
def appendIfGiven (path : Option String) (bytes : ByteArray) : m (Except FileError Unit) :=
  match path with
  | none => pure (.ok ())
  | some path => Host.append path bytes

/-- Lets out the emissions of a search, up to the first portion that the file of the trace
refuses. -/
def emit (verbose : Bool) (path : Option String) : List Emission → m (Except FileError Unit)
  | [] => pure (.ok ())
  | .entry e :: rest => do
    showLine verbose e.severity e.text
    emit verbose path rest
  | .rows bytes :: rest => do
    match ← appendIfGiven path bytes with
    | .ok _ => emit verbose path rest
    | .error e => pure (.error e)

/-- Writes what the spool of a trace, finished or not, holds back. -/
def writePending (path : Option String) (trace : Option Spool) : m (Except FileError Unit) :=
  match trace with
  | none => pure (.ok ())
  | some spool => appendIfGiven path spool.pending

/-- Goes on if an opened file took what was written. -/
def orRefused (x : Except FileError Unit) : Attempt m Unit :=
  match x with
  | .ok _ => pure ()
  | .error e => throw (.error (.writeFile e))

/-- Writes the summary of the last search to the end of a file, if one is given. -/
def writeSummary {ρ : Type} (path : Option String) (s : Session Float ρ) : Attempt m Unit :=
  match path with
  | none => pure ()
  | some path => do
    let summary ← orEnd s.completeSummary
    orRefused (← Host.append path summary.line.toUTF8)

/-- The search of an invocation. -/
def search (inv : Invocation) (seed : UInt64) : Attempt m Unit := do
  showLine inv.verbose .info ("using seed " ++ toString seed.toNat)
  let session : Session Float Keystream :=
    { source := Keystream.ofSeed seed, strategy := Strategy.standard }
  let session ← loadInstance inv.verbose inv.instancePath session
  -- Both files are opened before the search, so a search that fails leaves them behind.
  openSummary inv.output
  let trace ← openTrace inv.trace
  let solved := session.solve inv.mode trace
  match ← emit inv.verbose inv.trace (emissions solved) with
  | .ok _ => pure ()
  -- The search would have ended at this portion, and so does all that it lets out.
  | .error e => throw (.error (.solve (.trace (.file e))))
  let written ← writePending inv.trace solved.sink
  -- What became of the search is reported before what became of its last rows.
  let _ ← orEnd solved.outcome
  orRefused written
  writeSummary inv.output solved.session
  let solution ← orEnd solved.session.bestSolution
  Host.print solution.line

/-- **The program**: what it does for a command line, and the number with which it ends.  The
entropy is the seed if none is given. -/
def execute (args : List String) (entropy : UInt64) : m ExitCode :=
  match Command.ofArguments args with
  | .misuse => pure 2
  | .version => do
    Host.print (versionLine ++ "\n")
    pure 0
  | .help => do
    Host.print helpText
    pure 0
  | .search inv => do
    showLine inv.verbose .info "Logging successfully configured"
    match ← (search inv ((inv.seed.map Nat.toUInt64).getD entropy)).run with
    | .ok _ => pure 0
    | .error (.error e) => do
      showLine inv.verbose .warning ("Execution failed, error: " ++ e.message)
      pure 1
    | .error (.fault f) => do
      Host.logLine f.message
      pure 101

end

end WeightedSat.Cli
