import ConsoleBus.Channel.Request
import ConsoleBus.Channel.Source

/-!
Reading requests off a source, one frame at a time. `FrameBuffer.push` adds a byte to the frame
under way and gives the request that the byte completes, if any; no byte after the end of a frame is
ever taken. `Request.read` runs it over a source. The end of the source is clean only where no frame
is under way.
-/

namespace ConsoleBus

/-- Why no request could be read. -/
inductive DecodeError where
  /-- The source ended inside a frame. -/
  | truncated (opcode : UInt8)
  | io (error : IoError)
  deriving DecidableEq, Repr

/-- The published name of an error. -/
def DecodeError.name : DecodeError → String
  | truncated _ => "Truncated"
  | io _ => "Io"

def DecodeError.message : DecodeError → String
  | truncated opcode => s!"channel closed in the middle of opcode {opcode}"
  | io error => s!"io error: {error.message}"

/-- The bytes of a frame that is not complete. -/
abbrev FrameBuffer := Bytes

namespace FrameBuffer

/-- Adds one byte. -/
def push (frame : FrameBuffer) (b : UInt8) : FrameBuffer × Option Request :=
  match Request.ofFrame? (frame ++ [b]) with
  | some r => ([], some r)
  | none => (frame ++ [b], none)

/-- Adds bytes until a frame is complete, and gives the bytes that are left over. -/
def pushAll (frame : FrameBuffer) : Bytes → FrameBuffer × Option Request × Bytes
  | [] => (frame, none, [])
  | b :: bs =>
    match frame.push b with
    | (frame, some r) => (frame, some r, bs)
    | (frame, none) => pushAll frame bs

/-- What the end of the source means while this frame is under way. -/
def atEnd : FrameBuffer → Except DecodeError (Option Request)
  | [] => .ok none
  | opcode :: _ => .error (.truncated opcode)

/-- What a failed read means while this frame is under way: after the opcode, an early end that the
channel reports as a failure is an early end. -/
def atFault (e : IoError) : FrameBuffer → DecodeError
  | [] => .io e
  | opcode :: _ => if e.kind = .unexpectedEof then .truncated opcode else .io e

end FrameBuffer

namespace Request

/-- Reads the rest of a frame. -/
def readFrom (frame : FrameBuffer) : Source → Except DecodeError (Option Request) × Source
  | [] => (frame.atEnd, [])
  | .data [] :: s => (frame.atEnd, s)
  | .data (b :: bs) :: s =>
    match frame.pushAll (b :: bs) with
    | (_, some r, rest) => (.ok (some r), Source.putBack rest s)
    | (frame, none, _) => readFrom frame s
  | .fault e :: s =>
    if e.kind = .interrupted then readFrom frame s else (.error (frame.atFault e), s)

/-- Reads the next request, or nothing where the source ends between two frames. -/
def read (s : Source) : Except DecodeError (Option Request) × Source := readFrom [] s

/-- The answers of `calls` reads in a row, whatever the earlier ones were. -/
def readTimes : Nat → Source → List (Except DecodeError (Option Request)) × Source
  | 0, s => ([], s)
  | calls + 1, s =>
    let (answer, s) := read s
    let (answers, s) := readTimes calls s
    (answer :: answers, s)

/-- The answers of reading on until the first one that is no request, at most `limit` of them. -/
def readUpTo : Nat → Source → List (Except DecodeError (Option Request)) × Source
  | 0, s => ([], s)
  | limit + 1, s =>
    match read s with
    | (.ok (some r), s) =>
      let (answers, s) := readUpTo limit s
      (.ok (some r) :: answers, s)
    | (answer, s) => ([answer], s)

/-- The answers of reading until the source ends or fails, that answer included. A source of `n`
bytes holds at most `n` requests. -/
def readAll (s : Source) : List (Except DecodeError (Option Request)) × Source :=
  readUpTo (s.bytes.length + 1) s

end Request

end ConsoleBus
