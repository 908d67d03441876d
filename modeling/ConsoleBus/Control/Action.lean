import ConsoleBus.Control.Plane
import ConsoleBus.Machine.Command

/-!
What can be done to a plane from outside of the server, as data: commands to the machine, work on
the slot, requests to run or pause, and the end of a recording.
-/

namespace ConsoleBus

inductive Action where
  | command (command : Command)
  | slot (action : SlotAction)
  | run (request : RunRequest)
  /-- The recording under way ends by itself. -/
  | finishRecording
  /-- Asks for the recording under way. -/
  | recording

inductive ActionAnswer where
  | command (answer : Answer)
  | slot (answer : SlotAnswer)
  | flag (answer : Option Bool)
  | recording (path : Option Path)

namespace Plane

/-- Carries out an action. -/
def perform (p : Plane) : Action → ActionAnswer × Plane × List Effect
  | .command c =>
    let (answer, m, effects) := p.machine.perform c
    (.command answer, { p with machine := m }, effects)
  | .slot a =>
    let (answer, slot) := p.slot.perform a
    (.slot answer, { p with slot := slot }, [])
  | .run r =>
    let (answer, run) := p.run.request r
    (.flag answer, { p with run := run }, [])
  | .finishRecording =>
    let (finished, frontend, notifier) := p.frontend.finishRecording p.machine.notifier
    (.flag (some finished),
      { p with frontend := frontend, machine := { p.machine with notifier := notifier } }, [])
  | .recording => (.recording p.frontend.recording, p, [])

/-- Carries out actions one after the other. -/
def performAll (p : Plane) : List Action → List ActionAnswer × Plane × List Effect
  | [] => ([], p, [])
  | a :: rest =>
    let (answer, p, effects) := p.perform a
    let (answers, p, more) := p.performAll rest
    (answer :: answers, p, effects ++ more)

end Plane

end ConsoleBus
