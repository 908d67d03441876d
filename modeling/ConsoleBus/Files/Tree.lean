import ConsoleBus.Files.Path
import ConsoleBus.IoError

/-!
A tree of files. Directories and the bytes of files are kept apart under numbers, so whoever has
opened a file keeps it after its name is gone. `FileTree.walk` leads along a path, through links,
and refuses what a host would refuse; all operations are written on top of it.
-/

namespace ConsoleBus

/-- The names from the root. -/
abbrev Place := List Bytes

/-- The number of a directory. -/
abbrev DirectoryId := Nat

/-- The number of a file's bytes. -/
abbrev FileId := Nat

/-- What a name can stand for. -/
inductive Node where
  | directory (id : DirectoryId)
  | file (id : FileId)
  | link (target : Path)
  | pipe
  deriving DecidableEq, Repr

namespace Node

/-- The published name of what a name stands for. -/
def name : Node → String
  | directory _ => "dir"
  | file _ => "file"
  | link _ => "symlink"
  | pipe => "fifo"

def isDirectory : Node → Bool
  | directory _ => true
  | _ => false

end Node

/-- A directory: its place, and the names in it. -/
structure Directory where
  place : Place := []
  entries : List (Bytes × Node) := []

/-- The directories from one up to the root, which itself is left out. -/
abbrev Trail := List DirectoryId

structure FileTree where
  /-- All directories there ever were; the first is the root. -/
  directories : Array Directory
  /-- The bytes of all files there ever were. -/
  contents : Array ByteArray
  /-- The directory that relative paths start from. -/
  current : Trail

/-- Where a path leads: to something, or to a name in an existing directory that is free. -/
inductive Found where
  | present (node : Node)
  | vacant (directory : DirectoryId) (name : Bytes)

namespace FileTree

/-- The longest name. -/
def maxNameLength : Nat := 255

/-- The length that a path has to stay below. -/
def maxPathSize : Nat := 4096

/-- The number of links that one path may lead through. -/
def maxLinks : Nat := 40

/-- The directory at the end of a trail. -/
def directoryOf (trail : Trail) : DirectoryId := trail.headD 0

/-- The directory with a number. -/
def directory (t : FileTree) (id : DirectoryId) : Directory := t.directories.getD id {}

/-- What a name in a directory stands for. -/
def node? (t : FileTree) (id : DirectoryId) (name : Bytes) : Option Node :=
  (t.directory id).entries.lookup name

/-- The tree with the entries of one directory changed. -/
def mapEntries (t : FileTree) (id : DirectoryId)
    (f : List (Bytes × Node) → List (Bytes × Node)) : FileTree :=
  { t with directories := t.directories.modify id fun d => { d with entries := f d.entries } }

/-- Takes a name out of a directory. -/
def clear (t : FileTree) (id : DirectoryId) (name : Bytes) : FileTree :=
  t.mapEntries id fun entries => entries.filter fun entry => entry.1 != name

/-- Puts something under a name in a directory. -/
def put (t : FileTree) (id : DirectoryId) (name : Bytes) (node : Node) : FileTree :=
  (t.clear id name).mapEntries id fun entries => entries ++ [(name, node)]

/-- Puts a new directory under a name. -/
def addDirectory (t : FileTree) (id : DirectoryId) (name : Bytes) : FileTree :=
  let made : Directory := { place := (t.directory id).place ++ [name] }
  { t.put id name (.directory t.directories.size) with directories :=
      (t.put id name (.directory t.directories.size)).directories.push made }

/-- A tree with an empty current directory, the directory for shared segments, and no file. -/
def initial : FileTree :=
  let root : FileTree := ⟨#[{}], #[], []⟩
  let name := Path.ofString
  { (((root.addDirectory 0 (name "dev")).addDirectory 1 (name "shm")).addDirectory 0
      (name "tmp")).addDirectory 3 (name "work") with current := [4, 3] }

/-- The end of a path: what to do with a link there, and whether the path asks for a directory. -/
structure PathEnd where
  /-- Whether a link at the end is followed. -/
  follow : Bool := true
  /-- Whether a slash stands at the end. -/
  slash : Bool := false
  /-- Whether the path is to be opened with a file made where there is none. -/
  create : Bool := false

/-- What is found at the end of a path. A slash asks for a directory. -/
def PathEnd.check (e : PathEnd) (node : Node) : Except IoError Found :=
  if e.slash && !node.isDirectory then .error ⟨.notADirectory, none⟩ else .ok (.present node)

/-- Follows names from a directory. `links` is the number of links that may still be followed. A
slash at the end of the path has a link at the end followed, and a slash at the end of a link that
the path ends in counts as one at the end of the path. A file cannot be made by a name with a slash
after it, whatever the name leads to. -/
def walk (t : FileTree) (e : PathEnd) (links : Nat) (trail : Trail) (names : List Bytes) :
    Except IoError Found :=
  match names with
  | [] => .ok (.present (.directory (directoryOf trail)))
  | name :: rest =>
    if name = Path.here then t.walk e links trail rest
    else if name = Path.above then t.walk e links trail.tail rest
    else if rest.isEmpty && e.slash && e.create then .error ⟨.isADirectory, none⟩
    else if maxNameLength < name.length then .error ⟨.invalidFilename, none⟩
    else
      match t.node? (directoryOf trail) name with
      | none =>
        if rest.isEmpty then .ok (.vacant (directoryOf trail) name) else .error ⟨.notFound, none⟩
      | some (.directory id) => t.walk e links (id :: trail) rest
      | some (.link target) =>
        if rest.isEmpty && !e.follow && !e.slash then .ok (.present (.link target))
        else
          match links with
          | 0 => .error ⟨.filesystemLoop, none⟩
          | links + 1 =>
            let e := if rest.isEmpty then { e with slash := e.slash || target.endsWithSlash } else e
            t.walk e links (if target.isAbsolute then [] else trail) (target.names ++ rest)
      | some node => if rest.isEmpty then e.check node else .error ⟨.notADirectory, none⟩
termination_by (links, names.length)
decreasing_by all_goals simp_wf; simp [Prod.lex_def]

/-- The fault of a path with a zero byte. -/
def zeroByte : IoError := ⟨.invalidInput, some "file name contained an unexpected NUL byte"⟩

/-- What a host refuses in a path, or in the target of a link, by its text alone. -/
def unacceptable? (p : Path) : Option IoError :=
  if p.isEmpty then some ⟨.notFound, none⟩
  else if maxPathSize ≤ p.length then some ⟨.invalidFilename, none⟩
  else none

/-- A path that no host takes: one with a zero byte, an empty one, or one that is too long. -/
def malformed? (p : Path) : Option IoError :=
  if p.contains 0 then some zeroByte else unacceptable? p

/-- The directory that a path starts from. -/
def start (t : FileTree) (p : Path) : Trail := if p.isAbsolute then [] else t.current

/-- Where a path leads. -/
def find (t : FileTree) (e : PathEnd) (p : Path) : Except IoError Found :=
  match malformed? p with
  | some fault => .error fault
  | none => t.walk { e with slash := p.endsWithSlash } maxLinks (t.start p) p.names

/-- The bytes of a file. -/
def bytesOf (t : FileTree) (id : FileId) : ByteArray := t.contents.getD id ByteArray.empty

/-- Replaces the bytes of a file. -/
def setBytes (t : FileTree) (id : FileId) (bytes : ByteArray) : FileTree :=
  { t with contents := t.contents.setIfInBounds id bytes }

/-- Puts a new empty file under a name. -/
def addFile (t : FileTree) (id : DirectoryId) (name : Bytes) : FileId × FileTree :=
  (t.contents.size,
    { t.put id name (.file t.contents.size) with contents := t.contents.push ByteArray.empty })

/-- Whether a path leads to something. -/
def pathExists (t : FileTree) (p : Path) : Bool :=
  match t.find {} p with
  | .ok (.present _) => true
  | _ => false

/-- Whether a path leads to a directory. -/
def isDirectory (t : FileTree) (p : Path) : Bool :=
  match t.find {} p with
  | .ok (.present (.directory _)) => true
  | _ => false

/-- What stands at a path itself. -/
def kindAt? (t : FileTree) (p : Path) : Option Node :=
  match t.find { follow := false } p with
  | .ok (.present node) => some node
  | _ => none

/-- Opens a file that exists, for reading. A directory can be opened, but has no bytes to read. -/
def openRead (t : FileTree) (p : Path) : Except IoError (Option FileId) :=
  match t.find {} p with
  | .error e => .error e
  | .ok (.vacant ..) => .error ⟨.notFound, none⟩
  | .ok (.present (.file id)) => .ok (some id)
  | .ok (.present _) => .ok none

/-- Opens a file for writing; with `create` set, one that does not exist is made. -/
def openWrite (t : FileTree) (create : Bool) (p : Path) : Except IoError (FileId × FileTree) :=
  match t.find { create := create } p with
  | .error e => .error e
  | .ok (.vacant id name) =>
    if create then .ok (t.addFile id name) else .error ⟨.notFound, none⟩
  | .ok (.present (.file id)) => .ok (id, t)
  | .ok (.present (.directory _)) => .error ⟨.isADirectory, none⟩
  | .ok (.present _) => .error ⟨.other, none⟩

/-- The bytes of the file that a path leads to. -/
def read (t : FileTree) (p : Path) : Except IoError ByteArray :=
  match t.openRead p with
  | .error e => .error e
  | .ok (some id) => .ok (t.bytesOf id)
  | .ok none => .error ⟨.isADirectory, none⟩

/-- Makes the bytes the whole contents of the file that a path leads to. -/
def write (t : FileTree) (p : Path) (bytes : ByteArray) : Except IoError FileTree :=
  match t.openWrite true p with
  | .error e => .error e
  | .ok (id, t) => .ok (t.setBytes id bytes)

/-- The directory in which the last name of a path is looked up. -/
def parent (t : FileTree) (p : Path) : Except IoError DirectoryId :=
  match t.walk {} maxLinks (t.start p) p.names.dropLast with
  | .error e => .error e
  | .ok (.vacant ..) => .error ⟨.notFound, none⟩
  | .ok (.present (.directory id)) => .ok id
  | .ok (.present _) => .error ⟨.notADirectory, none⟩

/-- The directory and the free name in it that a path gives for something new. -/
def placeForNew (t : FileTree) (p : Path) (asDirectory : Bool) :
    Except IoError (DirectoryId × Bytes) :=
  match malformed? p with
  | some e => .error e
  | none =>
    match p.names.getLast? with
    | none => .error ⟨.alreadyExists, none⟩
    | some name =>
      match t.parent p with
      | .error e => .error e
      | .ok id =>
        if name = Path.here || name = Path.above then .error ⟨.alreadyExists, none⟩
        else if maxNameLength < name.length then .error ⟨.invalidFilename, none⟩
        else if (t.node? id name).isSome then .error ⟨.alreadyExists, none⟩
        else if p.endsWithSlash && !asDirectory then .error ⟨.notFound, none⟩
        else .ok (id, name)

/-- Makes a directory whose parent exists. -/
def makeDirectory (t : FileTree) (p : Path) : Except IoError FileTree :=
  (t.placeForNew p true).map fun (id, name) => t.addDirectory id name

/-- Makes a directory, and every directory above it that is missing; `depth` bounds their number.
What was made before a failure stays. -/
def makeDirectories (t : FileTree) (p : Path) : Nat → Except IoError Unit × FileTree
  | 0 => (.error ⟨.other, none⟩, t)
  | depth + 1 =>
    if p.isEmpty then (.ok (), t)
    else
      match t.makeDirectory p with
      | .ok t => (.ok (), t)
      | .error e =>
        if e.kind = .notFound then
          match p.parent? with
          | none => (.error ⟨.other, some "failed to create whole tree"⟩, t)
          | some above =>
            match t.makeDirectories above depth with
            | (.error e, t) => (.error e, t)
            | (.ok (), t) =>
              match t.makeDirectory p with
              | .ok t => (.ok (), t)
              | .error e => if t.isDirectory p then (.ok (), t) else (.error e, t)
        else if t.isDirectory p then (.ok (), t)
        else (.error e, t)

/-- Makes sure that a path leads to a directory. -/
def ensureDirectory (t : FileTree) (p : Path) : Except IoError Unit × FileTree :=
  t.makeDirectories p (p.pieces.length + 1)

/-- Puts a link at a path that holds nothing. A zero byte in either text is found before anything
else, and then the target is looked at before the path. -/
def makeLink (t : FileTree) (p target : Path) : Except IoError FileTree :=
  if target.contains 0 || p.contains 0 then .error zeroByte
  else
    match unacceptable? target with
    | some e => .error e
    | none => (t.placeForNew p false).map fun (id, name) => t.put id name (.link target)

/-- Makes a pipe unless the path leads to something already; the answer tells whether one was made.
Something that stands at the path itself, such as a link to nowhere, is left alone as well. -/
def ensurePipe (t : FileTree) (p : Path) : Except IoError Bool × FileTree :=
  if t.pathExists p then (.ok false, t)
  else if p.contains 0 then (.error ⟨.invalidInput, none⟩, t)
  else
    match t.placeForNew p false with
    | .ok (id, name) => (.ok true, t.put id name .pipe)
    | .error e => if e.kind = .alreadyExists then (.ok false, t) else (.error e, t)

/-- Writes files, each with the directories that it lies in. -/
def addAll (t : FileTree) : List (Path × ByteArray) → Except IoError FileTree
  | [] => .ok t
  | (p, bytes) :: rest =>
    match (t.ensureDirectory (p.parent?.getD [])).2.write p bytes with
    | .ok t => t.addAll rest
    | .error e => .error e

/-- Removes the name at the end of a path, unless it is a directory's. -/
def remove (t : FileTree) (p : Path) : Except IoError FileTree :=
  match t.find { follow := false } p with
  | .error e => .error e
  | .ok (.vacant ..) => .error ⟨.notFound, none⟩
  | .ok (.present (.directory _)) => .error ⟨.isADirectory, none⟩
  | .ok (.present _) =>
    (t.parent p).map fun id => t.clear id (p.names.getLastD [])

/-- The files in a directory and below it, each by its place, the oldest name of every directory
first; `depth` bounds how far down they lie. -/
def filesBelow (t : FileTree) (place : Place) (id : DirectoryId) :
    Nat → List (Place × ByteArray)
  | 0 => []
  | depth + 1 =>
    (t.directory id).entries.flatMap fun (name, node) =>
      match node with
      | .directory id => t.filesBelow (place ++ [name]) id depth
      | .file id => [(place ++ [name], t.bytesOf id)]
      | _ => []

/-- All files, each by its place. -/
def files (t : FileTree) : List (Place × ByteArray) := t.filesBelow [] 0 t.directories.size

/-- The place of the current directory. -/
def currentPlace (t : FileTree) : Place := (t.directory (directoryOf t.current)).place

/-- Whether a place lies below the current directory. -/
def isLocal (t : FileTree) (place : Place) : Bool := t.currentPlace.isPrefixOf place

/-- The path of a place: from the current directory where it lies below it, else from the root. -/
def pathOf (t : FileTree) (place : Place) : Path :=
  if t.isLocal place then Path.ofNames false (place.drop t.currentPlace.length)
  else Path.ofNames true place

/-- The files below the current directory, each by its path from there. -/
def listing (t : FileTree) : List (Path × ByteArray) :=
  (t.files.filter fun file => t.isLocal file.1).map fun file => (t.pathOf file.1, file.2)

end FileTree

end ConsoleBus
