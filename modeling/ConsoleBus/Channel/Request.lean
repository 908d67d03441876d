import ConsoleBus.Bytes

/-!
Requests and their frames. A frame is an opcode byte followed by a payload whose length the opcode
decides, apart from a path, which brings its own length byte. `Request.encode` writes a frame and
`Request.ofFrame?` reads one; a byte that no typed request owns is a whole frame by itself, so a
reader can step over it.
-/

namespace ConsoleBus

/-- The commands that have an opcode of their own. -/
inductive Opcode where
  | shutdown
  | pause
  | resume
  | snapshot
  | clearSnapshot
  | queryMemory
  | dumpMemory
  | releaseQuery
  | silence
  | unsilence
  | poke
  | drill
  | startAudioRecording
  | stopAudioRecording
  | saveState
  | loadState
  | setSpeed
  | ping
  deriving DecidableEq, Repr

namespace Opcode

/-- The byte that opens a frame of this command. -/
def code : Opcode → UInt8
  | shutdown => 1
  | pause => 2
  | resume => 3
  | snapshot => 11
  | clearSnapshot => 12
  | queryMemory => 21
  | dumpMemory => 22
  | releaseQuery => 23
  | silence => 24
  | unsilence => 25
  | poke => 26
  | drill => 27
  | startAudioRecording => 31
  | stopAudioRecording => 32
  | saveState => 41
  | loadState => 42
  | setSpeed => 43
  | ping => 50

/-- A code set aside for pulling the frame buffer; it has no request yet. -/
def reservedFramebuffer : UInt8 := 13

def all : List Opcode :=
  [shutdown, pause, resume, snapshot, clearSnapshot, queryMemory, dumpMemory, releaseQuery, silence,
    unsilence, poke, drill, startAudioRecording, stopAudioRecording, saveState, loadState, setSpeed,
    ping]

/-- The published name of a command. -/
def name : Opcode → String
  | shutdown => "shutdown"
  | pause => "pause"
  | resume => "resume"
  | snapshot => "snapshot"
  | clearSnapshot => "clear_snapshot"
  | queryMemory => "query_memory"
  | dumpMemory => "dump_memory"
  | releaseQuery => "release_query"
  | silence => "silence"
  | unsilence => "unsilence"
  | poke => "poke"
  | drill => "drill"
  | startAudioRecording => "start_audio_recording"
  | stopAudioRecording => "stop_audio_recording"
  | saveState => "save_state"
  | loadState => "load_state"
  | setSpeed => "set_speed"
  | ping => "ping"

/-- The command of a name. -/
def ofName? (name : String) : Option Opcode := all.find? fun o => o.name == name

/-- The command that owns a byte. -/
def ofCode? (b : UInt8) : Option Opcode := all.find? fun o => o.code == b

@[simp] theorem ofCode?_code (o : Opcode) : ofCode? o.code = some o := by cases o <;> rfl

theorem code_of_ofCode? {b : UInt8} {o : Opcode} (h : ofCode? b = some o) : o.code = b := by
  have := List.find?_some h
  simpa using this

end Opcode

/-- A path as it appears on the wire and in the file system: bytes, with no terminator. -/
abbrev Path := Bytes

/-- The longest path that a frame can carry. -/
def maxPathLength : Nat := 255

/-- One decoded command. -/
inductive Request where
  | shutdown
  | pause
  | resume
  | snapshot (id : UInt8)
  | clearSnapshot
  | queryMemory (start : Address) (len : UInt32) (key : UInt8)
  | dumpMemory (start : Address) (len : UInt32) (path : Path)
  | releaseQuery
  | silence (key : UInt8)
  | unsilence (key : UInt8)
  | poke (addr : Address) (value : UInt8)
  | drill (addr : Address) (value : UInt8) (count : UInt8)
  | startAudioRecording (path : Path)
  | stopAudioRecording
  | saveState (path : Path)
  | loadState (path : Path)
  | setSpeed (percent : UInt32)
  | ping
  /-- A byte that no command owns. -/
  | unknown (opcode : UInt8)
  deriving DecidableEq, Repr

/-- Why a request has no frame. -/
inductive EncodeError where
  | pathTooLong (len : Nat)
  | reservedOpcode (opcode : UInt8)
  deriving DecidableEq, Repr

/-- The published name of an error. -/
def EncodeError.name : EncodeError → String
  | pathTooLong _ => "PathTooLong"
  | reservedOpcode _ => "ReservedOpcode"

def EncodeError.message : EncodeError → String
  | pathTooLong len => s!"path is {len} bytes, the wire format allows at most {maxPathLength}"
  | reservedOpcode opcode => s!"opcode {opcode} is owned by a typed request"

namespace Request

/-- The byte that opens the request's frame. -/
def opcode : Request → UInt8
  | shutdown => Opcode.shutdown.code
  | pause => Opcode.pause.code
  | resume => Opcode.resume.code
  | snapshot _ => Opcode.snapshot.code
  | clearSnapshot => Opcode.clearSnapshot.code
  | queryMemory .. => Opcode.queryMemory.code
  | dumpMemory .. => Opcode.dumpMemory.code
  | releaseQuery => Opcode.releaseQuery.code
  | silence _ => Opcode.silence.code
  | unsilence _ => Opcode.unsilence.code
  | poke .. => Opcode.poke.code
  | drill .. => Opcode.drill.code
  | startAudioRecording _ => Opcode.startAudioRecording.code
  | stopAudioRecording => Opcode.stopAudioRecording.code
  | saveState _ => Opcode.saveState.code
  | loadState _ => Opcode.loadState.code
  | setSpeed _ => Opcode.setSpeed.code
  | ping => Opcode.ping.code
  | unknown opcode => opcode

/-- The bytes after the opcode, as far as the request has any. -/
def payload : Request → Bytes
  | snapshot id => [id]
  | queryMemory start len key => Bytes.ofWordBE start ++ Bytes.ofWordBE len ++ [key]
  | dumpMemory start len path =>
    Bytes.ofWordBE start ++ Bytes.ofWordBE len ++ UInt8.ofNat path.length :: path
  | silence key => [key]
  | unsilence key => [key]
  | poke addr value => Bytes.ofWordBE addr ++ [value]
  | drill addr value count => Bytes.ofWordBE addr ++ [value, count]
  | startAudioRecording path => UInt8.ofNat path.length :: path
  | saveState path => UInt8.ofNat path.length :: path
  | loadState path => UInt8.ofNat path.length :: path
  | setSpeed percent => Bytes.ofWordBE percent
  | shutdown | pause | resume | clearSnapshot | releaseQuery | stopAudioRecording | ping
  | unknown _ => []

/-- The path that a request carries. -/
def path? : Request → Option Path
  | dumpMemory _ _ path => some path
  | startAudioRecording path => some path
  | saveState path => some path
  | loadState path => some path
  | _ => none

/-- The reason why a request cannot be framed: its path is too long for the length byte, or it
claims as unknown a byte that a command owns. -/
def obstacle? : Request → Option EncodeError
  | unknown opcode => if (Opcode.ofCode? opcode).isSome then some (.reservedOpcode opcode) else none
  | r =>
    match r.path? with
    | some path => if maxPathLength < path.length then some (.pathTooLong path.length) else none
    | none => none

/-- The request's frame. -/
def encode (r : Request) : Except EncodeError Bytes :=
  match r.obstacle? with
  | some e => .error e
  | none => .ok (r.opcode :: r.payload)

/-- Appends the request's frame, or leaves the bytes as they are if there is none. -/
def encodeOnto (out : Bytes) (r : Request) : Bytes × Except EncodeError Unit :=
  match r.encode with
  | .ok frame => (out ++ frame, .ok ())
  | .error e => (out, .error e)

/-- Reads a path together with its length byte, and nothing after it. -/
def pathOf? : Bytes → Option Path
  | n :: path => if path.length = n.toNat then some path else none
  | [] => none

/-- Reads a payload of a command, provided that it is complete and nothing follows it. -/
def ofPayload? (o : Opcode) (payload : Bytes) : Option Request :=
  match o with
  | .shutdown => if payload = [] then some shutdown else none
  | .pause => if payload = [] then some pause else none
  | .resume => if payload = [] then some resume else none
  | .snapshot => match payload with
    | [id] => some (snapshot id)
    | _ => none
  | .clearSnapshot => if payload = [] then some clearSnapshot else none
  | .queryMemory => match payload with
    | [a, b, c, d, e, f, g, h, key] =>
      some (queryMemory (Bytes.wordBE a b c d) (Bytes.wordBE e f g h) key)
    | _ => none
  | .dumpMemory => match payload with
    | a :: b :: c :: d :: e :: f :: g :: h :: rest =>
      (pathOf? rest).map (dumpMemory (Bytes.wordBE a b c d) (Bytes.wordBE e f g h))
    | _ => none
  | .releaseQuery => if payload = [] then some releaseQuery else none
  | .silence => match payload with
    | [key] => some (silence key)
    | _ => none
  | .unsilence => match payload with
    | [key] => some (unsilence key)
    | _ => none
  | .poke => match payload with
    | [a, b, c, d, value] => some (poke (Bytes.wordBE a b c d) value)
    | _ => none
  | .drill => match payload with
    | [a, b, c, d, value, count] => some (drill (Bytes.wordBE a b c d) value count)
    | _ => none
  | .startAudioRecording => (pathOf? payload).map startAudioRecording
  | .stopAudioRecording => if payload = [] then some stopAudioRecording else none
  | .saveState => (pathOf? payload).map saveState
  | .loadState => (pathOf? payload).map loadState
  | .setSpeed => match payload with
    | [a, b, c, d] => some (setSpeed (Bytes.wordBE a b c d))
    | _ => none
  | .ping => if payload = [] then some ping else none

/-- Reads a whole frame. -/
def ofFrame? : Bytes → Option Request
  | [] => none
  | op :: payload =>
    match Opcode.ofCode? op with
    | some o => ofPayload? o payload
    | none => if payload = [] then some (unknown op) else none

end Request

end ConsoleBus
