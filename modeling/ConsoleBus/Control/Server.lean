import ConsoleBus.Control.Action

/-!
Serving a channel. The server takes one byte at a time, and carries out each request as soon as its
frame is complete, so no byte after a shutdown request is ever read. However the channel ends, the
plane is closed before the server returns.
-/

namespace ConsoleBus

/-- How serving came to its end. -/
inductive ServerExit where
  /-- A request asked for it. -/
  | shutdown
  /-- The channel ended or failed, perhaps inside a frame. -/
  | channelClosed
  deriving DecidableEq, Repr

/-- The published name of an exit. -/
def ServerExit.name : ServerExit → String
  | shutdown => "Shutdown"
  | channelClosed => "ChannelClosed"

/-- What one read of the channel gives. -/
inductive ChannelRead where
  | byte (b : UInt8)
  | fault (error : IoError)
  | ended
  deriving DecidableEq, Repr

/-- What can happen to a server: reads of its channel, and actions between two reads. -/
inductive ServerStep where
  | send (bytes : Bytes)
  | fault (error : IoError)
  | act (actions : List Action)
  | ended

structure Server where
  plane : Plane := {}
  /-- The frame under way. -/
  frame : FrameBuffer := []

/-- How serving a source ended: its exit, the server and the effects on the bus, and the reads that
were never made. -/
structure Served where
  exit : ServerExit
  server : Server
  effects : List Effect
  unread : Source

namespace Server

/-- Ends serving. -/
def leave (s : Server) (exit : ServerExit) : Option ServerExit × Server × List Effect :=
  (some exit, { s with plane := s.plane.close }, [])

/-- Takes what a read gives. An interrupted read is no event at all. -/
def receive (s : Server) : ChannelRead → Option ServerExit × Server × List Effect
  | .ended => s.leave .channelClosed
  | .fault e => if e.kind = .interrupted then (none, s, []) else s.leave .channelClosed
  | .byte b =>
    match s.frame.push b with
    | (frame, none) => (none, { s with frame := frame }, [])
    | (frame, some .shutdown) => { s with frame := frame }.leave .shutdown
    | (frame, some r) =>
      let (plane, effects) := s.plane.dispatch r
      (none, ⟨plane, frame⟩, effects)

/-- Takes bytes up to a request that ends serving, and gives those that are left. -/
def receiveAll (s : Server) : Bytes → Option ServerExit × Server × List Effect × Bytes
  | [] => (none, s, [], [])
  | b :: bs =>
    match s.receive (.byte b) with
    | (some exit, s, effects) => (some exit, s, effects, bs)
    | (none, s, effects) =>
      let (exit, s, more, rest) := s.receiveAll bs
      (exit, s, effects ++ more, rest)

/-- Takes a step, with the answers of its actions. -/
def take (s : Server) : ServerStep → (Option ServerExit × Server × List Effect) × List ActionAnswer
  | .send bytes =>
    let (exit, s, effects, _) := s.receiveAll bytes
    ((exit, s, effects), [])
  | .fault e => (s.receive (.fault e), [])
  | .act actions =>
    let (answers, plane, effects) := s.plane.performAll actions
    ((none, { s with plane := plane }, effects), answers)
  | .ended => (s.receive .ended, [])

/-- Serves a source to its end. -/
def serve (s : Server) : Source → Served
  | [] => ⟨.channelClosed, (s.leave .channelClosed).2.1, [], []⟩
  | .data [] :: source => ⟨.channelClosed, (s.leave .channelClosed).2.1, [], source⟩
  | .data (b :: bs) :: source =>
    match s.receiveAll (b :: bs) with
    | (some exit, s, effects, rest) => ⟨exit, s, effects, Source.putBack rest source⟩
    | (none, s, effects, _) =>
      let served := s.serve source
      { served with effects := effects ++ served.effects }
  | .fault e :: source =>
    match s.receive (.fault e) with
    | (some exit, s, effects) => ⟨exit, s, effects, source⟩
    | (none, s, _) => s.serve source

end Server

end ConsoleBus
