import ConsoleBus.Channel.Reader
import ConsoleBus.Control.Frontend
import ConsoleBus.Control.Query
import ConsoleBus.Control.RunControl
import ConsoleBus.Control.Slot
import ConsoleBus.Machine.Basic

/-!
The control plane: the machine together with everything that requests act on. `Plane.handle` says
what each request does and with which status it is answered; a request that is refused is answered
with the failure status and leaves everything as it was. `Plane.close` is the orderly shutdown that
ends every session.
-/

namespace ConsoleBus

structure Plane where
  machine : Machine := {}
  run : RunControl := {}
  slot : Slot := {}
  frontend : Frontend := {}
  query : QueryBuffer := {}
  host : Host := {}

/-- Why a request is refused. -/
inductive Refusal where
  | memory (error : MemoryError)
  | query (error : QueryError)
  | file (error : IoError)
  deriving DecidableEq, Repr

/-- The milliseconds between the stores of a drill. -/
def drillInterval : Nat := 5

/-- The most stores that one drill can ask for. -/
def maxDrillCount : Nat := 255

/-- What a request came to: its answer, the plane after it, and the effects on the bus. -/
structure Handled where
  answer : Except Refusal (Option Status)
  plane : Plane
  effects : List Effect := []

namespace Plane

/-- Sends a status byte. -/
def status (p : Plane) (s : Status) : Plane := { p with machine := p.machine.status s }

/-- Sends several status bytes. -/
def statuses (p : Plane) (ss : List Status) : Plane := ss.foldl status p

/-- Stores one byte through the handle, so many times, up to the first store that is refused. -/
def storeTimes (m : Machine) (addr : Address) (value : UInt8) :
    Nat → Except MemoryError Unit × Machine × List Effect
  | 0 => (.ok (), m, [])
  | count + 1 =>
    match m.storeByHandle addr value with
    | (.error e, m, effects) => (.error e, m, effects)
    | (.ok (), m, effects) =>
      let (outcome, m, more) := storeTimes m addr value count
      (outcome, m, effects ++ more)

/-- Stores a byte `count` times and answers with `done`. -/
def storeAndAnswer (p : Plane) (addr : Address) (value : UInt8) (count : Nat) (done : Status) :
    Handled :=
  let (outcome, machine, effects) := storeTimes p.machine addr value count
  ⟨match outcome with
    | .ok () => .ok (some done)
    | .error e => .error (.memory e), { p with machine := machine }, effects⟩

/-- Copies memory into the query segment. -/
def copyToSegment (p : Plane) (start : Address) (len : Nat) (key : UInt8) : Handled :=
  match QueryBuffer.checkLength len with
  | .error e => ⟨.error (.query e), p, []⟩
  | .ok len =>
    match p.machine.bus.memory.view start len with
    | .error e => ⟨.error (.memory e), p, []⟩
    | .ok bytes =>
      match p.query.store key bytes p.host with
      | (.error e, query, host) => ⟨.error (.query e), { p with query := query, host := host }, []⟩
      | (.ok (), query, host) =>
        ⟨.ok (some .queryCopied), { p with query := query, host := host }, []⟩

/-- Writes memory to a file. -/
def dump (p : Plane) (start : Address) (len : Nat) (path : Path) : Handled :=
  match p.machine.bus.memory.block start len with
  | .error e => ⟨.error (.memory e), p, []⟩
  | .ok bytes =>
    match p.host.files.write path bytes with
    | .error e => ⟨.error (.file e), p, []⟩
    | .ok files => ⟨.ok (some .dumpWritten), { p with host := { p.host with files := files } }, []⟩

/-- Leaves a save or load to the execution side, or turns it away. -/
def defer (p : Plane) (d : Deferred) : Handled :=
  match p.slot.request d with
  | (.ok (), slot) => ⟨.ok (some .deferredAccepted), { p with slot := slot }, []⟩
  | (.error _, slot) => ⟨.ok (some .deferredRejected), { p with slot := slot }, []⟩

/-- Carries out a request. -/
def handle (p : Plane) : Request → Handled
  | .shutdown => ⟨.ok none, p, []⟩
  | .pause =>
    let (changed, run) := p.run.requestPause
    ⟨.ok (if changed then none else some .alreadyPaused), { p with run := run }, []⟩
  | .resume =>
    let (changed, run) := p.run.requestResume
    ⟨.ok (if changed then none else some .alreadyRunning), { p with run := run }, []⟩
  | .snapshot id => ⟨.ok none, { p with frontend := p.frontend.snapshot id }, []⟩
  | .clearSnapshot => ⟨.ok none, { p with frontend := p.frontend.snapshot 0 }, []⟩
  | .queryMemory start len key => p.copyToSegment start len.toNat key
  | .dumpMemory start len path => p.dump start len.toNat path
  | .releaseQuery =>
    let (query, host) := p.query.release p.host
    ⟨.ok none, { p with query := query, host := host }, []⟩
  | .silence key => ⟨.ok none, { p with machine := (p.machine.silence key).1 }, []⟩
  | .unsilence key => ⟨.ok none, { p with machine := (p.machine.unsilence key).1 }, []⟩
  | .poke addr value => p.storeAndAnswer addr value 1 .byteWritten
  | .drill addr value count => p.storeAndAnswer addr value count.toNat .drillFinished
  | .startAudioRecording path =>
    ⟨.ok none, { p with frontend := p.frontend.startRecording path }, []⟩
  | .stopAudioRecording => ⟨.ok none, { p with frontend := p.frontend.stopRecording }, []⟩
  | .saveState path => p.defer ⟨.save, path⟩
  | .loadState path => p.defer ⟨.load, path⟩
  | .setSpeed percent =>
    ⟨.ok (some .speedSet),
      { p with frontend := p.frontend.setSpeed (Frontend.speedOfPercent percent) }, []⟩
  | .ping => ⟨.ok (some .alive), p, []⟩
  | .unknown _ => ⟨.ok none, p, []⟩

/-- The status that answers a request, if it has an answer. -/
def answerOf : Except Refusal (Option Status) → Option Status
  | .ok status => status
  | .error _ => some .failed

/-- Carries out a request and answers it. -/
def dispatch (p : Plane) (r : Request) : Plane × List Effect :=
  let handled := p.handle r
  (handled.plane.statuses (answerOf handled.answer).toList, handled.effects)

/-- The orderly shutdown. -/
def close (p : Plane) : Plane :=
  let (query, host) := p.query.release p.host
  { p with
    run := p.run.requestShutdown
    frontend := p.frontend.stopRecording.release
    query := query
    host := host
    machine := { p.machine with notifier := p.machine.notifier.flush.2 } }

end Plane

end ConsoleBus
