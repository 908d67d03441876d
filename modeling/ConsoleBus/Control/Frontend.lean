import ConsoleBus.Channel.Notifier
import ConsoleBus.Channel.Request

/-!
A front end without screen or sound: it keeps a log of what it was asked for, and knows which
recording is under way. A recording that ends by itself reports so; one that is stopped or released
does not.
-/

namespace ConsoleBus

inductive FrontendEvent where
  | snapshot (id : UInt8)
  | speed (multiplier : Float)
  | audioStarted (path : Path)
  | audioStopped
  | audioFinished (path : Path)
  | released
  deriving Repr

/-- The bits of a render speed; a speed that is no number has its sign bit set. -/
def speedBits (multiplier : Float) : UInt64 :=
  if multiplier.isNaN then 0xfff8000000000000 else multiplier.toBits

structure Frontend where
  /-- The log, with the latest event in front. -/
  past : List FrontendEvent := []
  recording : Option Path := none

namespace Frontend

/-- The log in the order of the events. -/
def events (f : Frontend) : List FrontendEvent := f.past.reverse

/-- Adds to the log. -/
def log (f : Frontend) (e : FrontendEvent) : Frontend := { f with past := e :: f.past }

@[simp] theorem events_log (f : Frontend) (e : FrontendEvent) :
    (f.log e).events = f.events ++ [e] := by simp [events, log]

/-- Renders into a snapshot buffer; number 0 clears it. -/
def snapshot (f : Frontend) (id : UInt8) : Frontend := f.log (.snapshot id)

/-- Sets the render speed, as a multiple of normal speed. -/
def setSpeed (f : Frontend) (multiplier : Float) : Frontend := f.log (.speed multiplier)

/-- The multiple of normal speed that a percentage stands for. -/
def speedOfPercent (percent : UInt32) : Float := Float.ofNat percent.toNat / 100.0

/-- Starts a recording in place of the one under way, if any. -/
def startRecording (f : Frontend) (path : Path) : Frontend :=
  { f with recording := some path }.log (.audioStarted path)

/-- Stops recording, whether or not a recording is under way. -/
def stopRecording (f : Frontend) : Frontend := { f with recording := none }.log .audioStopped

/-- The recording under way ends by itself and reports so; the answer tells whether there was one.
-/
def finishRecording (f : Frontend) (t : Notifier) : Bool × Frontend × Notifier :=
  match f.recording with
  | none => (false, f, t)
  | some path =>
    (true, { f with recording := none }.log (.audioFinished path), t.status .audioRecordingFinished)

/-- Gives up whatever the front end holds. -/
def release (f : Frontend) : Frontend := { f with recording := none }.log .released

end Frontend

end ConsoleBus
