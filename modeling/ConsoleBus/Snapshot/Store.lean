import ConsoleBus.Files.Tree
import ConsoleBus.Snapshot.Image

/-!
Memory images as files. A relative path is taken from the directory for states, where one is set.
-/

namespace ConsoleBus

structure ImageStore where
  directory : Option Path := none
  deriving DecidableEq, Repr

namespace ImageStore

/-- Where the image of a request is kept. -/
def resolve (s : ImageStore) (p : Path) : Path :=
  match s.directory with
  | some directory => if p.isAbsolute then p else directory.join p
  | none => p

/-- Writes the image of a memory, after making the directories that it lies in. -/
def save (s : ImageStore) (p : Path) (m : Memory) (t : FileTree) : Except IoError Unit × FileTree :=
  let p := s.resolve p
  match t.ensureDirectory (p.parent?.getD []) with
  | (.error e, t) => (.error e, t)
  | (.ok (), t) =>
    match t.write p (Image.encode m) with
    | .ok t => (.ok (), t)
    | .error e => (.error e, t)

/-- Reads an image into memory. -/
def load (s : ImageStore) (p : Path) (m : Memory) (t : FileTree) : Except IoError Memory :=
  match t.read (s.resolve p) with
  | .ok image => Image.decode image m
  | .error e => .error e

end ImageStore

end ConsoleBus
