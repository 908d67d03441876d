import ConsoleBus.Channel.Notification
import ConsoleBus.IoError

/-!
The outbound channel. A sink is scripted by the replies that its writes and flushes will get; once
the script is over it accepts everything. The notifier writes each message whole and flushes after
it, and counts the messages that got through and those that did not.
-/

namespace ConsoleBus

/-- The reply to one write: some bytes are accepted, at most so many, or the write fails. -/
inductive WriteReply where
  | accept (limit : Nat)
  | fail (error : IoError)
  deriving DecidableEq, Repr

/-- An output channel: what it accepted so far and how it will reply. -/
structure Sink where
  /-- What each write got accepted, the latest in front. -/
  writesAccepted : List Bytes := []
  writes : List WriteReply := []
  /-- The replies to flushes, each a failure or none. -/
  flushes : List (Option IoError) := []
  /-- Whether accepted bytes are kept; a channel to nowhere keeps none. -/
  keeps : Bool := true
  deriving DecidableEq, Repr

namespace Sink

/-- The bytes accepted so far. -/
def accepted (s : Sink) : Bytes := s.writesAccepted.reverse.flatten

/-- Writes until all the bytes are accepted or a write fails, retrying interrupted writes. Gives the
outcome, the bytes that were accepted and the replies that are left. -/
def writeAll : Bytes → List WriteReply → Except IoError Unit × Bytes × List WriteReply
  | [], replies => (.ok (), [], replies)
  | data, [] => (.ok (), data, [])
  | data, .fail e :: replies =>
    if e.kind = .interrupted then writeAll data replies else (.error e, [], replies)
  | data, .accept limit :: replies =>
    if limit = 0 then (.error .writeZero, [], replies)
    else
      let (outcome, accepted, replies) := writeAll (data.drop limit) replies
      (outcome, data.take limit ++ accepted, replies)

/-- Writes a message. -/
def write (s : Sink) (data : Bytes) : Except IoError Unit × Sink :=
  let (outcome, accepted, replies) := writeAll data s.writes
  let kept := if s.keeps then accepted :: s.writesAccepted else s.writesAccepted
  (outcome, { s with writesAccepted := kept, writes := replies })

/-- What a write gets accepted is added to what was accepted before. -/
theorem accepted_write (s : Sink) (data : Bytes) :
    (s.write data).2.accepted =
      s.accepted ++ if s.keeps then (writeAll data s.writes).2.1 else [] := by
  by_cases h : s.keeps = true <;> simp [write, accepted, h]

/-- Flushes the channel. -/
def flush (s : Sink) : Except IoError Unit × Sink :=
  match s.flushes with
  | [] => (.ok (), s)
  | none :: replies => (.ok (), { s with flushes := replies })
  | some e :: replies => (.error e, { s with flushes := replies })

end Sink

/-- The channel for notifications, with its two counters. They have 64 bits and would start over;
numbers stand for them here, and differ from them only after 2 ^ 64 messages. -/
structure Notifier where
  sink : Sink := {}
  sent : Nat := 0
  failures : Nat := 0
  deriving DecidableEq, Repr

namespace Notifier

/-- A notifier whose messages go nowhere. -/
def disabled : Notifier := { sink := { keeps := false } }

/-- Writes a message and flushes it out. -/
def deliver (s : Sink) (data : Bytes) : Except IoError Unit × Sink :=
  match s.write data with
  | (.ok (), s) => s.flush
  | (.error e, s) => (.error e, s)

/-- Sends a message and counts it. -/
def send (t : Notifier) (n : Notification) : Except IoError Unit × Notifier :=
  match deliver t.sink n.encode with
  | (.ok (), sink) => (.ok (), { t with sink := sink, sent := t.sent + 1 })
  | (.error e, sink) => (.error e, { t with sink := sink, failures := t.failures + 1 })

/-- Sends a status byte; whether it got through shows in the counters only. -/
def status (t : Notifier) (s : Status) : Notifier := (t.send (.status s)).2

/-- Sends hook events, one after the other. -/
def report (t : Notifier) (events : List HookEvent) : Notifier :=
  events.foldl (fun t e => (t.send (.hookFired e)).2) t

/-- Flushes the channel. -/
def flush (t : Notifier) : Except IoError Unit × Notifier :=
  let (outcome, sink) := t.sink.flush
  (outcome, { t with sink := sink })

/-- The bytes accepted since the last time, and the notifier without them. -/
def take (t : Notifier) : Bytes × Notifier :=
  (t.sink.accepted, { t with sink := { t.sink with writesAccepted := [] } })

end Notifier

end ConsoleBus
