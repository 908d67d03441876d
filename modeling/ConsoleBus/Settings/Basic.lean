import ConsoleBus.Settings.Arguments
import ConsoleBus.Watch.Registry

/-!
The settings of a run, made from its arguments. The channels come from a name, from two paths, or
from a mixture of both; without either there is no control plane.
-/

namespace ConsoleBus

inductive Channels where
  | disabled
  /-- Where requests come from and where notifications go. An output with a derived name is a pipe,
  which is made if it is missing. -/
  | enabled (input output : Path) (pipe : Bool)
  deriving DecidableEq, Repr

inductive HookSource where
  | none
  /-- So many records on standard input. -/
  | records (count : Nat)
  | listing (path : Path)
  deriving DecidableEq, Repr

structure Settings where
  channels : Channels
  hooks : HookSource
  /-- The milliseconds between two reports of coalesced changes. -/
  flushInterval : Nat
  segmentDirectory : Option Path
  stateDirectory : Option Path
  loadState : Option Path
  bios : Option Path
  maxTicks : Option Nat
  logLevel : Bytes
  deriving DecidableEq, Repr

inductive SettingsError where
  | arguments (error : ArgumentError)
  | partialChannels
  | zeroFlushInterval
  deriving DecidableEq, Repr

namespace SettingsError

/-- The published name of an error. -/
def name : SettingsError → String
  | arguments e => e.name
  | partialChannels => "PartialChannels"
  | zeroFlushInterval => "ZeroFlushInterval"

/-- The wording; the command line's own errors have another reporter. -/
def message : SettingsError → String
  | arguments _ => ""
  | partialChannels =>
    "--control-input and --notify-output must be given together when --control-pipe is none"
  | zeroFlushInterval => "--flush-interval-ms must be greater than zero"

end SettingsError

namespace Settings

/-- The pipe name that stands for no control plane. -/
def noPipe : Bytes := Utf8.encode "none"

/-- The channels for a pipe name and the two paths that may replace what is derived from it. -/
def channelsFor (pipe : Bytes) (input output : Option Path) : Except SettingsError Channels :=
  if pipe = noPipe then
    match input, output with
    | none, none => .ok .disabled
    | some input, some output => .ok (.enabled input output false)
    | _, _ => .error .partialChannels
  else
    .ok (.enabled (input.getD (pipe ++ Utf8.encode "-proc"))
      (output.getD (pipe ++ Utf8.encode "-mem")) output.isNone)

/-- The number of an option whose value was checked. -/
def numberOf (a : Arguments) (o : OptionName) : Option Nat :=
  (a.value? o).bind (Text.number? UInt64.size)

/-- The settings for arguments. -/
def ofArguments (a : Arguments) : Except SettingsError Settings :=
  match channelsFor ((a.value? .controlPipe).getD noPipe) (a.value? .controlInput)
      (a.value? .notifyOutput) with
  | .error e => .error e
  | .ok channels =>
    let flushInterval := (numberOf a .flushIntervalMs).getD defaultFlushInterval
    if flushInterval = 0 then .error .zeroFlushInterval
    else
      .ok {
        channels := channels
        hooks :=
          match a.value? .hooks with
          | some path => .listing path
          | none =>
            match (numberOf a .memoryListeners).getD 0 with
            | 0 => .none
            | count => .records count
        flushInterval := flushInterval
        segmentDirectory := a.value? .segmentDir
        stateDirectory := a.value? .stateDir
        loadState := a.value? .loadState
        bios := a.value? .bios
        maxTicks := numberOf a .maxTicks
        logLevel := (a.value? .logLevel).getD (Utf8.encode "info") }

/-- The settings for a command line and an environment. -/
def parse (argv : List Bytes) (env : Bytes → Option Bytes) : Except SettingsError Settings :=
  match Arguments.parse argv env with
  | .error e => .error (.arguments e)
  | .ok a => ofArguments a

end Settings

end ConsoleBus
