import ConsoleBus.Control.Session
import ConsoleBus.Settings.Basic
import ConsoleBus.Watch.Listing
import ConsoleBus.Watch.Record

/-!
The program over a tree of files. It reads its settings, the ROM and the hook list, opens its
channels in a fixed order, and serves the input channel beside an execution side without work. What
goes wrong before the channels are open ends it with an error that names the step.
-/

namespace ConsoleBus

/-- What a run of the program starts from. -/
structure Invocation where
  arguments : List Bytes
  environment : Bytes → Option Bytes
  input : Bytes
  files : FileTree
  /-- The bytes of memory that the host has to give. -/
  hostMemory : Nat := 0x800000000

/-- What a run of the program leaves behind. -/
structure Outcome where
  /-- The exit code; a run that the host puts to an end has none. -/
  code : Option Nat
  /-- The first line of the error report. -/
  error : Option String := none
  output : String := ""
  files : FileTree

/-- Why a run stops early. -/
inductive Stop where
  | failed (context : String)
  /-- It asks for more memory than can be asked for at once. -/
  | unthinkable
  /-- It asks for more memory than the host has. -/
  | exhausted
  deriving DecidableEq, Repr

/-- The files that the settings name. -/
def Settings.namedFiles (s : Settings) : List Path :=
  let channels := match s.channels with
    | .disabled => []
    | .enabled input output _ => [input, output]
  let hooks := match s.hooks with
    | .listing path => [path]
    | _ => []
  let state := s.loadState.map (ImageStore.mk s.stateDirectory).resolve
  s.bios.toList ++ hooks ++ state.toList ++ channels

namespace Program

/-- The line that tells the program's version. -/
def version : String := "psx-control 0.1.0\n"

/-- A failure, with the step that it belongs to. -/
def context {ε α : Type} (what : String) : Except ε α → Except Stop α
  | .ok a => .ok a
  | .error _ => .error (.failed what)

/-- A path as messages show it. -/
def shown (p : Path) : String := Utf8.lossy p

/-- The storage at the start, with the ROM in its place. -/
def memory (s : Settings) (files : FileTree) : Except Stop Memory :=
  match s.bios with
  | none => .ok .zeroed
  | some path =>
    match context s!"read BIOS {shown path}" (files.read path) with
    | .error e => .error e
    | .ok image => context "load BIOS" (Memory.zeroed.loadBios image.data.toList)

/-- The hook list. Records are read into memory that the host has to give. -/
def hooks (s : Settings) (i : Invocation) : Except Stop (List HookSpec) :=
  match s.hooks with
  | .none => .ok []
  | .records count =>
    match HookRecord.readList count [.data i.input] with
    | none => .error .unthinkable
    | some (read, _) =>
      if i.hostMemory < HookRecord.specSize * count then .error .exhausted
      else context s!"read {count} hook records from stdin" read
  | .listing path =>
    let what := s!"load hooks from {shown path}"
    match context what (i.files.read path) with
    | .error e => .error e
    | .ok text => context what (HookListing.parseFile text.data.toList)

/-- Opens the output channel. A pipe's place is kept as it is; any other file is emptied. -/
def openOutput (output : Path) (pipe : Bool) (files : FileTree) :
    Except Stop FileId × FileTree :=
  let (made, files) := if pipe then files.ensurePipe output else (.ok false, files)
  match context s!"create notification fifo {shown output}" made with
  | .error e => (.error e, files)
  | .ok _ =>
    match context s!"open notification channel {shown output}" (files.openWrite (!pipe) output) with
    | .error e => (.error e, files)
    | .ok (id, files) => (.ok id, if pipe then files else files.setBytes id .empty)

/-- Opens the input channel. A directory opens, but cannot be read. -/
def openInput (input : Path) (files : FileTree) : Except Stop (Option FileId) :=
  context s!"open control channel {shown input}" (files.openRead input)

/-- The directory for query segments. -/
def segmentDirectory (s : Settings) (files : FileTree) : Path :=
  s.segmentDirectory.getD
    (if files.isDirectory (Path.ofString "/dev/shm") then Path.ofString "/dev/shm"
    else Path.ofString "/tmp")

/-- A session that begins with the load asked for, if any. -/
def session (s : Settings) (machine : Machine) (files : FileTree) : Session Unit ImageStore where
  server := {
    plane := {
      machine := machine
      slot := ⟨s.loadState.map fun path => ⟨.load, path⟩⟩
      query := { provider := .directory (segmentDirectory s files) }
      host := { files := files } } }
  execution := {
    cpu := .idle
    store := ImageStore.asStateStore
    core := ()
    storage := ⟨s.stateDirectory⟩
    maxTicks := s.maxTicks }

/-- A session with its two files, and how far each of them has been gone through. The files may be
one and the same, and requests may write to them as well, so every read sees what is there by then.
-/
structure Service where
  session : Session Unit ImageStore
  /-- The input, unless it is a directory. -/
  input : Option FileId
  output : FileId
  taken : Nat := 0
  written : Nat := 0

namespace Service

def files (s : Service) : FileTree := s.session.plane.host.files

/-- The next read of the input. -/
def next (s : Service) : ChannelRead :=
  match s.input with
  | none => .fault ⟨.isADirectory, none⟩
  | some id => ((s.files.bytesOf id)[s.taken]?.map .byte).getD .ended

/-- Bytes put over the bytes of a file from a position on, with zeros up to there. -/
def overlaid (old : ByteArray) (position : Nat) (bytes : ByteArray) : ByteArray :=
  old.extract 0 position ++ repeatByte (position - old.size) 0 ++ bytes ++
    old.extract (position + bytes.size) old.size

/-- Moves what was sent into the output file. -/
def drain (s : Service) : Service :=
  let p := s.session.plane
  let (sent, notifier) := p.machine.notifier.take
  if sent.isEmpty then s
  else
    let bytes := overlaid (s.files.bytesOf s.output) s.written sent.toByteArray
    let host := { p.host with files := p.host.files.setBytes s.output bytes }
    let machine := { p.machine with notifier := notifier }
    { s with
      session := s.session.setPlane { p with machine := machine, host := host }
      written := s.written + sent.length }

/-- Takes one read of the input. -/
def step (s : Service) : Service :=
  { s with session := s.session.receive s.next, taken := s.taken + 1 }.drain

/-- Takes reads until serving ends, at most so many. -/
def run (s : Service) : Nat → Service
  | 0 => s
  | reads + 1 => if s.session.exit.isSome then s else s.step.run reads

end Service

/-- The most reads that a run waits for. An input that feeds on its own output has no end; any other
one is read to its end (`maxReads_enough`). -/
def maxReads : Nat := 0x10000000000

/-- Runs without channels, and so without hooks. -/
def runAlone (s : Settings) (memory : Memory) (files : FileTree) : FileTree :=
  let machine : Machine := { bus := { memory := memory }, notifier := .disabled }
  let session := session s machine files
  (session.runAlone session.execution.ticksLeft).plane.host.files

/-- Runs with channels. The output is opened before the hooks are looked at, and the input last. -/
def runServed (s : Settings) (memory : Memory) (hooks : List HookSpec) (input output : Path)
    (pipe : Bool) (files : FileTree) : Except Stop Unit × FileTree :=
  match openOutput output pipe files with
  | (.error e, files) => (.error e, files)
  | (.ok id, files) =>
    match Registry.ofSpecs hooks with
    | .error e => (.error (.failed e.message), files)
    | .ok registry =>
      match openInput input files with
      | .error e => (.error e, files)
      | .ok source =>
        let machine : Machine := { bus := { memory := memory }, registry := registry }
        let service : Service := ⟨session s machine files, source, id, 0, 0⟩
        (.ok (), (service.run maxReads).files)

/-- Runs with settings that are known to be good. -/
def runWith (s : Settings) (i : Invocation) : Except Stop Unit × FileTree :=
  match memory s i.files with
  | .error e => (.error e, i.files)
  | .ok memory =>
    match hooks s i with
    | .error e => (.error e, i.files)
    | .ok hooks =>
      match s.channels with
      | .disabled => (.ok (), runAlone s memory i.files)
      | .enabled input output pipe => runServed s memory hooks input output pipe i.files

/-- The first line of a text. A carriage return before the line feed belongs to the line's end. -/
def firstLine (text : String) : String :=
  let line := text.toList.takeWhile (· != '\n')
  String.ofList (if line.getLast? = some '\r' then line.dropLast else line)

/-- The report of an error. -/
def report (what : String) : String := firstLine s!"Error: {what}"

/-- Runs the program. -/
def run (i : Invocation) : Outcome :=
  match Settings.parse i.arguments i.environment with
  | .error (.arguments e) =>
    { code := some e.exitCode
      output := if e = .displayVersion then version else ""
      files := i.files }
  | .error e => { code := some 1, error := some (report e.message), files := i.files }
  | .ok s =>
    match runWith s i with
    | (.ok (), files) => { code := some 0, files := files }
    | (.error (.failed what), files) =>
      { code := some 1, error := some (report what), files := files }
    | (.error .unthinkable, files) => { code := some 101, files := files }
    | (.error .exhausted, files) => { code := none, files := files }

end Program

end ConsoleBus
