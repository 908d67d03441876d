import ConsoleBus.Program

/-!
The program itself. It brings the files that the settings name into a tree, runs over the tree, and
brings the files that have changed back.
-/

namespace ConsoleBus.Main

/-- Reads a stream to its end. -/
partial def readAll (stream : IO.FS.Stream) (read : ByteArray) : IO ByteArray := do
  let more ← stream.read 65536
  if more.isEmpty then return read else readAll stream (read ++ more)

/-- Brings a file into the tree, if it can be read. -/
def bringIn (t : FileTree) (p : Path) : IO FileTree := do
  match Utf8.strict p with
  | none => return t
  | some name =>
    try
      let bytes ← IO.FS.readBinFile name
      return (t.addAll [(p, bytes)]).toOption.getD t
    catch _ => return t

/-- Brings the files back that are new or have changed, and removes those that are gone. -/
def bringBack (before after : FileTree) : IO Unit := do
  for (place, bytes) in after.files do
    unless before.files.any fun file => file.1 == place && file.2 == bytes do
      let p := after.pathOf place
      let parent := (p.parent?.bind Utf8.strict).getD ""
      unless parent.isEmpty do IO.FS.createDirAll parent
      if let some name := Utf8.strict p then IO.FS.writeBinFile name bytes
  for (place, _) in before.files do
    unless after.files.any fun file => file.1 == place do
      if let some name := Utf8.strict (before.pathOf place) then IO.FS.removeFile name

/-- The environment variables that stand in for options. -/
def environment : IO (List (Bytes × Bytes)) := do
  let mut found := []
  for name in OptionName.all.filterMap OptionName.environmentName do
    if let some value ← IO.getEnv name then
      found := found ++ [(Utf8.encode name, Utf8.encode value)]
  return found

/-- The code of a run that the host puts to an end, as a shell shows it. -/
def abortCode : Nat := 134

/-- Runs the program and gives its exit code. -/
def run (arguments : List String) : IO UInt32 := do
  let arguments := arguments.map Utf8.encode
  let given ← environment
  let settings := Settings.parse arguments fun name => given.lookup name
  let mut files := FileTree.initial
  let mut input := ByteArray.empty
  if let .ok s := settings then
    for path in s.namedFiles do
      files ← bringIn files path
    if let .records _ := s.hooks then
      input ← readAll (← IO.getStdin) input
  let outcome := Program.run {
    arguments := arguments
    environment := fun name => given.lookup name
    input := input.data.toList
    files := files }
  bringBack files outcome.files
  IO.print outcome.output
  if let some line := outcome.error then
    IO.eprintln line
  return UInt32.ofNat (outcome.code.getD abortCode)

end ConsoleBus.Main

/-- The program's entry. -/
def main (arguments : List String) : IO UInt32 := ConsoleBus.Main.run arguments
