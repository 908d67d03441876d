import ConsoleBus.Channel.Request
import ConsoleBus.Text.Decimal
import ConsoleBus.Text.Utf8

/-!
The command line and the environment. Each option takes one value, either attached to it by an
equals sign or as the next argument, and may be given once. A value that stands by itself is looked
at when the next option or the end of the line is reached, so an argument that nobody knows is
reported before it. What the command line leaves out is taken from the environment.
-/

namespace ConsoleBus

inductive OptionName where
  | controlPipe
  | controlInput
  | notifyOutput
  | memoryListeners
  | hooks
  | flushIntervalMs
  | segmentDir
  | stateDir
  | loadState
  | bios
  | maxTicks
  | logLevel
  deriving DecidableEq, Repr

/-- The kinds of option values. -/
inductive ValueForm where
  | text
  | path
  | number
  deriving DecidableEq, Repr

/-- Why a command line is not carried out. -/
inductive ArgumentError where
  | unknownArgument
  /-- A value is missing or empty. -/
  | invalidValue
  | valueValidation
  | argumentConflict
  | tooManyValues
  | invalidUtf8
  | displayHelp
  | displayVersion
  deriving DecidableEq, Repr

namespace ArgumentError

/-- The published name of an error. -/
def name : ArgumentError → String
  | unknownArgument => "UnknownArgument"
  | invalidValue => "InvalidValue"
  | valueValidation => "ValueValidation"
  | argumentConflict => "ArgumentConflict"
  | tooManyValues => "TooManyValues"
  | invalidUtf8 => "InvalidUtf8"
  | displayHelp => "DisplayHelp"
  | displayVersion => "DisplayVersion"

/-- The exit code of the program; asking for help or the version is no failure. -/
def exitCode : ArgumentError → Nat
  | displayHelp => 0
  | displayVersion => 0
  | _ => 2

end ArgumentError

namespace OptionName

/-- The options in the order of their declaration. -/
def all : List OptionName :=
  [controlPipe, controlInput, notifyOutput, memoryListeners, hooks, flushIntervalMs, segmentDir,
    stateDir, loadState, bios, maxTicks, logLevel]

/-- The option as it is written after two dashes. -/
def flag : OptionName → String
  | controlPipe => "control-pipe"
  | controlInput => "control-input"
  | notifyOutput => "notify-output"
  | memoryListeners => "memory-listeners"
  | hooks => "hooks"
  | flushIntervalMs => "flush-interval-ms"
  | segmentDir => "segment-dir"
  | stateDir => "state-dir"
  | loadState => "load-state"
  | bios => "bios"
  | maxTicks => "max-ticks"
  | logLevel => "log-level"

/-- The environment variable that stands in for the option, if there is one. -/
def environmentName : OptionName → Option String
  | controlPipe => some "PSX_CONTROL_PIPE"
  | controlInput => some "PSX_CONTROL_INPUT"
  | notifyOutput => some "PSX_NOTIFY_OUTPUT"
  | memoryListeners => some "PSX_MEMORY_LISTENERS"
  | hooks => some "PSX_HOOKS"
  | flushIntervalMs => some "PSX_FLUSH_INTERVAL_MS"
  | segmentDir => some "PSX_SEGMENT_DIR"
  | stateDir => some "PSX_STATE_DIR"
  | loadState => some "PSX_LOAD_STATE"
  | bios => some "PSX_BIOS"
  | maxTicks => none
  | logLevel => some "PSX_LOG_LEVEL"

def form : OptionName → ValueForm
  | controlPipe | logLevel => .text
  | memoryListeners | flushIntervalMs | maxTicks => .number
  | _ => .path

/-- The option of a flag. -/
def ofFlag? (text : Bytes) : Option OptionName := all.find? fun o => Utf8.encode o.flag == text

end OptionName

/-- The values given so far, as texts that passed their checks. -/
abbrev Arguments := List (OptionName × Bytes)

namespace Arguments

/-- Whether a text is a value of the form. -/
def check (form : ValueForm) (raw : Bytes) : Except ArgumentError Unit :=
  match form with
  | .path => if raw.isEmpty then .error .invalidValue else .ok ()
  | .text => if Utf8.isValid raw then .ok () else .error .invalidUtf8
  | .number =>
    if !Utf8.isValid raw then .error .invalidUtf8
    else if (Text.number? UInt64.size raw).isSome then .ok ()
    else .error .valueValidation

/-- The value of an option. -/
def value? (a : Arguments) (o : OptionName) : Option Bytes :=
  (a.find? fun given => given.1 == o).map Prod.snd

/-- Takes the value of an option, which may be missing, but not be given twice. -/
def accept (a : Arguments) (o : OptionName) (raw : Option Bytes) : Except ArgumentError Arguments :=
  match raw with
  | none => .error .invalidValue
  | some raw =>
    if (a.value? o).isSome then .error .argumentConflict
    else (check o.form raw).map fun () => a ++ [(o, raw)]

end Arguments

/-- A command line as far as it has been read. -/
structure ArgumentReader where
  given : Arguments := []
  /-- An option whose value is an argument of its own, and that value once it is there. -/
  pending : Option (OptionName × Option Bytes) := none
  /-- Whether two dashes have ended the options. -/
  trailing : Bool := false

namespace ArgumentReader

/-- Looks at the value that stands by itself. -/
def resolve (r : ArgumentReader) : Except ArgumentError ArgumentReader :=
  match r.pending with
  | none => .ok r
  | some (o, raw) =>
    (r.given.accept o raw).map fun given => { r with given := given, pending := none }

/-- Splits a long option from the value attached to it. -/
def splitAttached (text : Bytes) : Bytes × Option Bytes :=
  match text.dropWhile (· != 0x3d) with
  | [] => (text, none)
  | _ :: value => (text.takeWhile (· != 0x3d), some value)

/-- Stops for help or the version, unless the line was wrong before. -/
def display (r : ArgumentReader) (what : ArgumentError) : Except ArgumentError ArgumentReader :=
  match r.resolve with
  | .error e => .error e
  | .ok _ => .error what

/-- Reads a long option. -/
def long (r : ArgumentReader) (text : Bytes) : Except ArgumentError ArgumentReader :=
  let (flag, attached) := splitAttached text
  match OptionName.ofFlag? flag with
  | some o =>
    match r.resolve with
    | .error e => .error e
    | .ok r =>
      match attached with
      | none => .ok { r with pending := some (o, none) }
      | some value => (r.given.accept o (some value)).map fun given => { r with given := given }
  | none =>
    let what := if flag = Utf8.encode "help" then some ArgumentError.displayHelp
      else if flag = Utf8.encode "version" then some .displayVersion
      else none
    match what, attached with
    | none, _ => .error .unknownArgument
    | some _, some _ => .error .tooManyValues
    | some what, none => r.display what

/-- Reads short options; only help and the version have one. -/
def short (r : ArgumentReader) (first : UInt8) : Except ArgumentError ArgumentReader :=
  if first = 0x68 then r.display .displayHelp
  else if first = 0x56 then r.display .displayVersion
  else .error .unknownArgument

/-- Reads an argument that is no option: the value that an option waits for. -/
def plain (r : ArgumentReader) (text : Bytes) : Except ArgumentError ArgumentReader :=
  match r.trailing, r.pending with
  | false, some (o, none) => .ok { r with pending := some (o, some text) }
  | _, _ => .error .unknownArgument

/-- Reads one argument. -/
def next (r : ArgumentReader) (text : Bytes) : Except ArgumentError ArgumentReader :=
  if r.trailing then r.plain text
  else
    match text with
    | [0x2d, 0x2d] => .ok { r with trailing := true }
    | 0x2d :: 0x2d :: long => r.long long
    | 0x2d :: first :: _ => r.short first
    | _ => r.plain text

/-- Reads arguments up to the first that is wrong. -/
def readAll (r : ArgumentReader) : List Bytes → Except ArgumentError ArgumentReader
  | [] => .ok r
  | text :: rest =>
    match r.next text with
    | .error e => .error e
    | .ok r => r.readAll rest

end ArgumentReader

namespace Arguments

/-- Takes the value of one option from the environment, if the command line has none. -/
def fill (env : Bytes → Option Bytes) (a : Arguments) (o : OptionName) :
    Except ArgumentError Arguments :=
  if (a.value? o).isSome then .ok a
  else
    match o.environmentName.bind fun name => env (Utf8.encode name) with
    | some raw => a.accept o (some raw)
    | none => .ok a

/-- Takes what is missing from the environment, option by option. -/
def fillAll (env : Bytes → Option Bytes) (a : Arguments) :
    List OptionName → Except ArgumentError Arguments
  | [] => .ok a
  | o :: rest =>
    match a.fill env o with
    | .error e => .error e
    | .ok a => a.fillAll env rest

/-- The values from a command line and an environment. Hook records and a hook file exclude each
other. -/
def parse (argv : List Bytes) (env : Bytes → Option Bytes) : Except ArgumentError Arguments :=
  match ArgumentReader.readAll {} argv with
  | .error e => .error e
  | .ok r =>
    match r.resolve with
    | .error e => .error e
    | .ok r =>
      match r.given.fillAll env OptionName.all with
      | .error e => .error e
      | .ok a =>
        if (a.value? .hooks).isSome && (a.value? .memoryListeners).isSome then
          .error .argumentConflict
        else .ok a

end Arguments

end ConsoleBus
