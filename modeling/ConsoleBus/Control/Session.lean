import ConsoleBus.Control.Execution
import ConsoleBus.Control.Server

/-!
A whole session: the server and the execution side over one plane. Each move of one of them is made
while the other one rests, so a session is one sequence of moves. When serving ends, the slice under
way is given up and the execution side runs to its own end.
-/

namespace ConsoleBus

structure Session (κ σ : Type) where
  server : Server
  execution : Execution κ σ
  /-- Whether the interval for reporting coalesced changes passes at every rest. -/
  flushes : Bool := false
  exit : Option ServerExit := none
  /-- The effects of every move, the latest move in front. -/
  moves : List (List Effect) := []

/-- What can happen to a session. -/
inductive SessionStep where
  /-- Lets so many slices run. -/
  | tick (slices : Nat)
  | send (bytes : Bytes)
  | fault (error : IoError)

/-- How a session ended. -/
inductive SessionReport where
  | completed (exit : Option ServerExit) (summary : ExecutionSummary)
  | crashed
  deriving DecidableEq, Repr

/-- The text for a session whose execution side went wrong. -/
def SessionReport.crashMessage : String := "execution thread panicked"

namespace Session

variable {κ σ : Type}

def plane (s : Session κ σ) : Plane := s.server.plane

/-- The effects on the bus so far. -/
def effects (s : Session κ σ) : List Effect := s.moves.reverse.flatten

/-- Adds the effects of a move. -/
def note (s : Session κ σ) (effects : List Effect) : Session κ σ :=
  { s with moves := effects :: s.moves }

/-- Changes the plane. -/
def setPlane (s : Session κ σ) (p : Plane) : Session κ σ :=
  { s with server := { s.server with plane := p } }

/-- Takes over what moves of the execution side came to. -/
def adopt (s : Session κ σ) (r : Running κ σ) : Session κ σ :=
  { s.setPlane r.plane with execution := r.execution }.note r.effects

/-- Reports the coalesced changes that wait, if the interval for it passes. -/
def flush (s : Session κ σ) : Session κ σ :=
  if s.flushes then s.setPlane { s.plane with machine := s.plane.machine.flush.1 } else s

/-- Lets the execution side move on to its next rest. -/
def settle (s : Session κ σ) : Session κ σ := (s.adopt (s.execution.settle s.plane)).flush

/-- Runs up to so many slices, each to the next rest, and counts them. -/
def tick (s : Session κ σ) : Nat → Nat × Session κ σ
  | 0 => (0, s)
  | slices + 1 =>
    if s.execution.phase = .slice then
      let (ran, s) := (s.adopt (s.execution.step s.plane)).settle.tick slices
      (ran + 1, s)
    else (0, s)

/-- Gives up the slice under way and runs to the end. -/
def finish (s : Session κ σ) : Session κ σ :=
  let e := s.execution
  let s := if e.phase = .slice then { s with execution := e.endSlice } else s
  s.adopt (s.execution.settle s.plane)

/-- Lets the server take what a read gives, at a rest. -/
def receive (s : Session κ σ) (r : ChannelRead) : Session κ σ :=
  let s := s.settle
  match s.server.receive r with
  | (none, server, effects) => { s with server := server }.note effects
  | (some exit, server, effects) =>
    ({ s with server := server, exit := some exit }.note effects).finish

/-- Lets the server take bytes, up to its end. -/
def receiveAll (s : Session κ σ) (bytes : Bytes) : Session κ σ :=
  bytes.foldl (fun s b => if s.exit.isSome then s else s.receive (.byte b)) s

/-- Lets the execution side come to a rest before the next read, if there is to be one. -/
def rest (s : Session κ σ) : Session κ σ := if s.exit.isSome then s else s.settle

/-- Takes a step, and counts the slices that it started. -/
def take (s : Session κ σ) : SessionStep → Option Nat × Session κ σ
  | .tick slices =>
    let (ran, s) := s.tick slices
    (some ran, s)
  | .send bytes => (none, (s.receiveAll bytes).rest)
  | .fault e => (none, (s.receive (.fault e)).rest)

/-- A session that was prepared by actions on its plane. -/
def prepare (s : Session κ σ) (actions : List Action) : List ActionAnswer × Session κ σ :=
  let (answers, p, effects) := s.plane.performAll actions
  (answers, (s.setPlane p).note effects)

/-- Runs without a channel: only the execution side, for at most so many ticks. -/
def runAlone (s : Session κ σ) (ticks : Nat) : Session κ σ :=
  s.adopt (s.execution.runFor s.plane [] ticks).running

/-- What happens after the execution side has come to its end. A crash shuts everything down. -/
def report (s : Session κ σ) : SessionReport × Session κ σ :=
  let p := s.plane
  if s.execution.phase = .crashed then
    (.crashed, s.setPlane { p with run := p.run.requestShutdown })
  else
    (.completed s.exit s.execution.summary,
      s.setPlane { p with machine := { p.machine with notifier := p.machine.notifier.flush.2 } })

end Session

end ConsoleBus
