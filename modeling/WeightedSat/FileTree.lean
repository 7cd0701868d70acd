import WeightedSat.Device
import WeightedSat.Path

/-!
# File trees

Files and directories, addressed by paths.  A path is walked name by name; a name on the way has to
be a directory, or a link to one.  Besides the files of a user, a tree has the directories that
every system has, its links and its devices.

## Main definitions

* `FileTree`, with `FileTree.makeDirectory` and `FileTree.makeFile`.
* `FileTree.refused?`: why a file cannot be opened.
* `FileTree.target`: what a path leads to.
* `FileTree.read`, `FileTree.openFile` and `FileTree.append`.
-/

namespace WeightedSat

/-- The directory from which paths start that do not start at the root. -/
def homeDirectory : List String := ["tmp", "work"]

/-- The directories that every system has, with those that lead to them. -/
def systemDirectories : List (List String) :=
  [["boot"], ["dev"], ["dev", "pts"], ["dev", "shm"], ["etc"], ["home"], ["media"], ["mnt"],
   ["opt"], ["proc"], ["proc", "self"], ["proc", "self", "fd"], ["proc", "sys"], ["root"], ["run"],
   ["srv"], ["sys"], ["tmp"], ["usr"], ["usr", "bin"], ["usr", "lib"], ["usr", "lib64"],
   ["usr", "local"], ["usr", "sbin"], ["usr", "share"], ["var"], ["var", "log"], ["var", "tmp"],
   homeDirectory]

/-- The links that every system has, each with the directory that it stands for. -/
def systemLinks : List (List String × List String) :=
  [(["bin"], ["usr", "bin"]),
   (["lib"], ["usr", "lib"]),
   (["lib64"], ["usr", "lib64"]),
   (["sbin"], ["usr", "sbin"]),
   (["dev", "fd"], ["proc", "self", "fd"]),
   (["proc", "self", "cwd"], homeDirectory),
   (["proc", "self", "root"], [])]

/-- The directories in and below which the system lets nobody make a file, each with the error of
an attempt. -/
def systemSeals : List (List String × FileError) :=
  [(["proc"], .notFound), (["sys"], .notPermitted), (["dev", "pts"], .notPermitted)]

/-- **Access**: what a file is opened for. -/
inductive Access
  | reading
  | writing
deriving DecidableEq, Repr

/-- **File tree**: the directories, the links, the devices, and the files with their bytes, each by
the names that lead to it from the root. -/
structure FileTree where
  directories : List (List String) := systemDirectories
  links : List (List String × List String) := systemLinks
  seals : List (List String × FileError) := systemSeals
  /-- The places of files that cannot be opened, each with the error of an attempt. -/
  refusals : List ((Access × List String) × FileError) := []
  devices : List (List String × Device) := Device.places
  files : List (List String × ByteArray) := []
  workingDirectory : List String := homeDirectory

namespace FileTree

/-- Whether a directory is there; the root always is. -/
def hasDirectory (t : FileTree) (p : List String) : Bool :=
  -- The depths are compared first, since deep places often differ in nothing else.
  let depth := p.length
  p.isEmpty || t.directories.any fun q => q.length == depth && q == p

/-- The bytes of a file. -/
def file? (t : FileTree) (p : List String) : Option ByteArray :=
  (t.files.find? (·.1 == p)).map (·.2)

/-- The device at a place. -/
def device? (t : FileTree) (p : List String) : Option Device :=
  (t.devices.find? (·.1 == p)).map (·.2)

/-- The place that a link at a place stands for, or the place itself. -/
def follow (t : FileTree) (p : List String) : List String :=
  match t.links.find? (·.1 == p) with
  | some link => link.2
  | none => p

/-- The error, if any, of making a file at a place where nothing is. -/
def sealed? (t : FileTree) (p : List String) : Option FileError :=
  (t.seals.find? (·.1.isPrefixOf p)).map (·.2)

/-- The error, if any, of opening the file at a place. -/
def refused? (t : FileTree) (access : Access) (p : List String) : Option FileError :=
  (t.refusals.find? (·.1 == (access, p))).map (·.2)

/-- The directory in which a path starts. -/
def start (t : FileTree) (path : String) : List String :=
  if Path.isAbsolute path then [] else t.workingDirectory

/-! ## Making a tree -/

/-- Gives a file its bytes, whether or not it is there. -/
def setFile (t : FileTree) (p : List String) (bytes : ByteArray) : FileTree :=
  if (t.file? p).isSome then
    { t with files := t.files.map fun f => if f.1 == p then (p, bytes) else f }
  else { t with files := t.files ++ [(p, bytes)] }

/-- Makes the directories that names lead through from a directory on, and tells where they
lead. -/
def makeWay (t : FileTree) (p : List String) : List String → FileTree × List String
  | [] => (t, p)
  | name :: rest =>
    if name = "." then t.makeWay p rest
    else if name = ".." then t.makeWay p.dropLast rest
    else
      let q := p ++ [name]
      if t.hasDirectory q then t.makeWay q rest
      else makeWay { t with directories := t.directories ++ [q] } q rest

/-- Makes the directory at a path and those on the way. -/
def makeDirectory (t : FileTree) (path : String) : FileTree :=
  (t.makeWay (t.start path) (Path.names path)).1

/-- Makes the file at a path and the directories on the way. -/
def makeFile (t : FileTree) (path : String) (bytes : ByteArray) : FileTree :=
  let names := Path.names path
  match names.getLast? with
  | none => t
  | some last =>
    let (t, p) := t.makeWay (t.start path) names.dropLast
    t.setFile (p ++ [last]) bytes

/-- The files in and below the working directory, by their paths from there. -/
def listing (t : FileTree) : List (String × ByteArray) :=
  t.files.filterMap fun (p, bytes) =>
    if t.workingDirectory.isPrefixOf p then
      some ("/".intercalate (p.drop t.workingDirectory.length), bytes)
    else none

/-! ## Following a path -/

/-- **Target**: what a path leads to. -/
inductive Target
  | directory (p : List String)
  | device (d : Device)
  | file (p : List String) (bytes : ByteArray)
  /-- Nothing is there, but a file could be. -/
  | vacant (p : List String)

/-- What a name leads to in a directory. -/
def lookUp (t : FileTree) (p : List String) (name : String) : Except FileError Target :=
  let q := t.follow (p ++ [name])
  if Path.maxNameSize < name.utf8ByteSize then .error .nameTooLong
  else if t.hasDirectory q then .ok (.directory q)
  else
    match t.device? q, t.file? q with
    | some d, _ => .ok (.device d)
    | none, some bytes => .ok (.file q bytes)
    | none, none => .ok (.vacant q)

/-- The directory that names lead to from a directory; above the root there is the root. -/
def walk (t : FileTree) (p : List String) : List String → Except FileError (List String)
  | [] => .ok p
  | name :: rest =>
    if name = "." then t.walk p rest
    else if name = ".." then t.walk p.dropLast rest
    else
      match t.lookUp p name with
      | .error e => .error e
      | .ok (.directory q) => t.walk q rest
      | .ok (.vacant _) => .error .notFound
      | .ok _ => .error .notDirectory

/-- The directory in which the last name of a path is looked up. -/
def directoryOf (t : FileTree) (path : String) : Except FileError (List String) :=
  match Path.refusal? path with
  | some e => .error e
  | none => t.walk (t.start path) (Path.names path).dropLast

/-- What a path leads to. -/
def target (t : FileTree) (path : String) : Except FileError Target :=
  match t.directoryOf path with
  | .error e => .error e
  | .ok p =>
    match (Path.names path).getLast? with
    | none => .ok (.directory p)
    | some name =>
      if name = "." then .ok (.directory p)
      else if name = ".." then .ok (.directory p.dropLast)
      else t.lookUp p name

/-! ## Reading and writing -/

/-- The bytes of the file at a path. -/
def read (t : FileTree) (path : String) : Except FileError ByteArray :=
  match t.target path with
  | .error e => .error e
  | .ok (.directory _) => .error .isDirectory
  | .ok (.vacant _) => .error .notFound
  | .ok (.file p bytes) =>
    if Path.endsInSlash path then .error .notDirectory
    else
      match t.refused? .reading p with
      | some e => .error e
      | none => .ok bytes
  | .ok (.device d) => if Path.endsInSlash path then .error .notDirectory else d.read

/-- Opens the file at a path for writing.  It is made if it is not there, and otherwise emptied
unless its bytes are to be kept.  A path that ends in a slash asks for a directory, which cannot be
written; its last name is not looked up. -/
def openFile (t : FileTree) (keep : Bool) (path : String) : Except FileError FileTree :=
  match t.directoryOf path with
  | .error e => .error e
  | .ok _ =>
    if Path.endsInSlash path then .error .isDirectory
    else
      match t.target path with
      | .error e => .error e
      | .ok (.directory _) => .error .isDirectory
      | .ok (.file p _) =>
        match t.refused? .writing p with
        | some e => .error e
        | none => .ok (if keep then t else t.setFile p .empty)
      | .ok (.vacant p) =>
        match (t.sealed? p).or (t.refused? .writing p) with
        | some e => .error e
        | none => .ok (t.setFile p .empty)
      | .ok (.device d) =>
        match d.openError? with
        | some e => .error e
        | none => .ok t

/-- The error, if any, with which the opened file at a path refuses every byte. -/
def refusal? (t : FileTree) (path : String) : Option FileError :=
  match t.target path with
  | .ok (.device d) => d.refusal?
  | _ => none

/-- Adds bytes to the end of the opened file at a path.  A device keeps none. -/
def append (t : FileTree) (path : String) (bytes : ByteArray) : Except FileError FileTree :=
  match t.target path with
  | .error e => .error e
  | .ok (.directory _) => .error .isDirectory
  | .ok (.vacant _) => .error .notFound
  | .ok (.file p old) => .ok (t.setFile p (old ++ bytes))
  | .ok (.device d) =>
    match d.refusal? with
    | some e => .error e
    | none => .ok t

end FileTree

end WeightedSat
