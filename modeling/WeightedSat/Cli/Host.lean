import WeightedSat.FileTree

/-!
# Hosts

What the program asks of its surroundings: files to read and to write, a place for its answer and
one for its log.  `Desk` is a host that is a mere value: a file tree and two texts.
-/

namespace WeightedSat.Cli

/-- **Host**: the surroundings of the program, as the operations of a monad. -/
class Host (m : Type → Type) where
  /-- The bytes of the file at a path. -/
  readFile : String → m (Except FileError ByteArray)
  /-- Opens the file at a path for writing and makes it if need be.  Its bytes are kept if the
  first argument says so.  The answer is the error, if one is known already, with which the opened
  file refuses every byte. -/
  openFile : Bool → String → m (Except FileError (Option FileError))
  /-- Adds bytes to the end of an opened file. -/
  append : String → ByteArray → m (Except FileError Unit)
  /-- Writes to the answer of the program. -/
  print : String → m Unit
  /-- Writes a line to the log. -/
  logLine : String → m Unit

/-- **Desk**: a file tree, the answer so far and the log so far, both in bytes. -/
structure Desk where
  tree : FileTree
  answer : ByteArray := .empty
  log : ByteArray := .empty

/-- The desk after bytes were added to the end of an opened file.  Two devices lead to the answer
and to the log. -/
def Desk.append (d : Desk) (path : String) (bytes : ByteArray) : Except FileError Desk :=
  match d.tree.target path with
  | .ok (.device .answer) => .ok { d with answer := d.answer ++ bytes }
  | .ok (.device .log) => .ok { d with log := d.log ++ bytes }
  | _ => (d.tree.append path bytes).map fun tree => { d with tree }

instance : Host (StateM Desk) where
  readFile path := do pure ((← get).tree.read path)
  openFile keep path := do
    let d ← get
    match d.tree.openFile keep path with
    | .error e => pure (.error e)
    | .ok tree =>
      set { d with tree }
      pure (.ok (tree.refusal? path))
  append path bytes := do
    let d ← get
    match d.append path bytes with
    | .error e => pure (.error e)
    | .ok d =>
      set d
      pure (.ok ())
  print text := modify fun d => { d with answer := d.answer ++ text.toUTF8 }
  logLine line := modify fun d => { d with log := d.log ++ (line ++ "\n").toUTF8 }

/-- Actions that may fail ask what is around them; asking does not make them fail. -/
instance {ε : Type} {m : Type → Type} [Monad m] [Host m] : Host (ExceptT ε m) where
  readFile path := ExceptT.lift (Host.readFile path)
  openFile keep path := ExceptT.lift (Host.openFile keep path)
  append path bytes := ExceptT.lift (Host.append path bytes)
  print text := ExceptT.lift (Host.print text)
  logLine line := ExceptT.lift (Host.logLine line)

end WeightedSat.Cli
