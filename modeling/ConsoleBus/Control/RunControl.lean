import ConsoleBus.Channel.Notification

/-!
Pause, resume and shutdown. Requests flip three flags from one side; the execution side passes a
gate once a tick. A gate that finds execution paused parks, says so, waits until it may go on and
says that too; between any two of its moves requests may arrive, so it is a small machine of its
own: `RunControl.enter` and `RunControl.advance` are its moves.
-/

namespace ConsoleBus

structure RunControl where
  paused : Bool := false
  /-- Whether the execution side stands in the gate. -/
  parked : Bool := false
  shutdown : Bool := false
  deriving DecidableEq, Repr

/-- What the gate tells the execution side. -/
inductive Gate where
  | proceed
  | shutdown
  deriving DecidableEq, Repr

/-- The published name of the gate's word. -/
def Gate.name : Gate → String
  | proceed => "Continue"
  | shutdown => "Shutdown"

/-- Where a passage through the gate stands. -/
inductive GatePhase where
  /-- Parked, and about to say so. -/
  | announcing
  | waiting
  /-- About to say that execution goes on. -/
  | acknowledging
  | passed (gate : Gate)
  deriving DecidableEq, Repr

/-- What the other side can ask for. -/
inductive RunRequest where
  | pause
  | resume
  | shutdown
  /-- Asks for nothing. -/
  | look
  deriving DecidableEq, Repr

namespace RunControl

/-- Asks for a pause; the answer is false if there was one. -/
def requestPause (r : RunControl) : Bool × RunControl :=
  if r.paused then (false, r) else (true, { r with paused := true })

/-- Ends a pause; the answer is false if there was none. -/
def requestResume (r : RunControl) : Bool × RunControl :=
  if r.paused then (true, { r with paused := false }) else (false, r)

/-- Stops execution for good. -/
def requestShutdown (r : RunControl) : RunControl := { r with shutdown := true, paused := false }

/-- Makes a request, with its answer if it has one. -/
def request (r : RunControl) : RunRequest → Option Bool × RunControl
  | .pause => (some r.requestPause.1, r.requestPause.2)
  | .resume => (some r.requestResume.1, r.requestResume.2)
  | .shutdown => (none, r.requestShutdown)
  | .look => (none, r)

/-- Makes requests one after the other. Gives each answer with the flags after it. -/
def requestAll (r : RunControl) : List RunRequest → List (Option Bool × RunControl) × RunControl
  | [] => ([], r)
  | q :: rest =>
    let (answer, next) := r.request q
    let (steps, after) := next.requestAll rest
    ((answer, next) :: steps, after)

/-- The execution side arrives at the gate. -/
def enter (r : RunControl) : RunControl × GatePhase :=
  if r.shutdown then (r, .passed .shutdown)
  else if r.paused then ({ r with parked := true }, .announcing)
  else (r, .passed .proceed)

/-- Whether a parked execution has to stay where it is. -/
def holds (r : RunControl) : Bool := r.paused && !r.shutdown

/-- The next move of the execution side in the gate, with the status that it sends. -/
def advance (r : RunControl) : GatePhase → RunControl × GatePhase × Option Status
  | .announcing => (r, .waiting, some .paused)
  | .waiting =>
    if r.holds then (r, .waiting, none)
    else if r.shutdown then ({ r with parked := false }, .passed .shutdown, none)
    else ({ r with parked := false }, .acknowledging, none)
  | .acknowledging => (r, .passed .proceed, some .resumed)
  | .passed gate => (r, .passed gate, none)

/-- Moves on for as long as the gate lets it. Three moves take it from any phase to its word, or to
the wait if it holds. -/
def drive (r : RunControl) (p : GatePhase) : Nat → RunControl × GatePhase × List Status
  | 0 => (r, p, [])
  | moves + 1 =>
    let (r, p, sent) := r.advance p
    let (r, p, more) := r.drive p moves
    (r, p, sent.toList ++ more)

/-- The requests that arrive while execution is parked, with a resumption at their end if execution
would otherwise stay parked. -/
def whileParked (r : RunControl) (requests : List RunRequest) : List RunRequest :=
  if (r.requestAll requests).2.holds then requests ++ [.resume] else requests

/-- What a passage through the gate gives: the flags and the phase reached, the statuses sent, and
the steps made while parked. -/
structure Passage where
  run : RunControl
  phase : GatePhase
  sent : List Status
  parked : List (Option Bool × RunControl)

/-- A whole passage through the gate, during which the given requests arrive if it parks. -/
def pass (r : RunControl) (requests : List RunRequest) : Passage :=
  let (r, p) := r.enter
  let (r, p, before) := r.drive p 3
  match p with
  | .passed _ => ⟨r, p, before, []⟩
  | _ =>
    let (steps, r) := r.requestAll (r.whileParked requests)
    let (r, p, after) := r.drive p 3
    ⟨r, p, before ++ after, steps⟩

end RunControl

end ConsoleBus
