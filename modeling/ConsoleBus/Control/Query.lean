import ConsoleBus.Files.Tree

/-!
The segment that queries copy memory into. It is attached by the first query, under that query's
key, and serves all later queries whatever key they carry, until it is released. A copy is put at
the start of the segment and leaves the rest as it was. Where segments live is up to the provider.
-/

namespace ConsoleBus

/-- The length of a segment, and the most that one query can copy. -/
def segmentSize : Nat := 128

/-- Where segments come from. -/
inductive SegmentProvider where
  /-- Segments in memory, which everyone can look at. -/
  | memory
  /-- Files in a directory. -/
  | directory (path : Path)
  /-- No segment can be attached. -/
  | refusing (error : IoError)
  /-- Segments that take no bytes and cannot be removed. -/
  | unwritable (write release : IoError)
  deriving DecidableEq, Repr

/-- What others can see of segments and files. -/
structure Host where
  files : FileTree := .initial
  /-- The segments in memory, each by its key. -/
  segments : List (UInt8 × Bytes) := []

/-- What holds the bytes of an attached segment. -/
inductive SegmentBacking where
  | memory
  | file (path : Path) (id : FileId)
  | unwritable (write release : IoError)
  deriving DecidableEq, Repr

structure Segment where
  key : UInt8
  backing : SegmentBacking
  deriving DecidableEq, Repr

inductive QueryError where
  | tooLong (len : Nat)
  | attach (key : UInt8) (cause : IoError)
  | write (key : UInt8) (cause : IoError)
  deriving DecidableEq, Repr

/-- The published name of an error. -/
def QueryError.name : QueryError → String
  | tooLong _ => "TooLong"
  | attach .. => "Attach"
  | write .. => "Write"

def QueryError.message : QueryError → String
  | tooLong len => s!"query of {len} bytes exceeds the {segmentSize}-byte segment"
  | attach key cause => s!"failed to attach query segment {key}: {cause.message}"
  | write key cause => s!"failed to write query segment {key}: {cause.message}"

namespace Host

/-- The bytes of a segment in memory. -/
def segment? (h : Host) (key : UInt8) : Option Bytes :=
  (h.segments.find? fun s => s.1 == key).map Prod.snd

/-- Makes a segment in memory, filled with zeros, unless there is one of this key. -/
def addSegment (h : Host) (key : UInt8) : Host :=
  match h.segment? key with
  | some _ => h
  | none => { h with segments := h.segments ++ [(key, List.replicate segmentSize 0)] }

/-- Puts bytes at the start of a segment in memory. -/
def writeSegment (h : Host) (key : UInt8) (bytes : Bytes) : Host :=
  { h with segments := h.segments.map fun s =>
      if s.1 = key then (s.1, bytes ++ s.2.drop bytes.length) else s }

/-- Removes a segment in memory. -/
def removeSegment (h : Host) (key : UInt8) : Host :=
  { h with segments := h.segments.filter fun s => s.1 != key }

end Host

namespace SegmentProvider

/-- The file of a segment. -/
def segmentPath (directory : Path) (key : UInt8) : Path :=
  directory.join (Path.ofString s!"psx-query-{key}")

/-- Gives a file the length of a segment, cutting it or filling it up with zeros. -/
def fitted (bytes : ByteArray) : ByteArray :=
  bytes.extract 0 segmentSize ++ ⟨Array.replicate (segmentSize - bytes.size) 0⟩

/-- Attaches the segment of a key. -/
def attach (p : SegmentProvider) (key : UInt8) (h : Host) : Except IoError (Segment × Host) :=
  match p with
  | memory => .ok (⟨key, .memory⟩, h.addSegment key)
  | directory dir =>
    let path := segmentPath dir key
    match h.files.openWrite true path with
    | .error e => .error e
    | .ok (id, files) =>
      .ok (⟨key, .file path id⟩, { h with files := files.setBytes id (fitted (files.bytesOf id)) })
  | refusing e => .error e
  | unwritable write release => .ok (⟨key, .unwritable write release⟩, h)

end SegmentProvider

namespace Segment

/-- Puts bytes at the start of a segment. A segment in memory may have been removed by someone
else. -/
def write (s : Segment) (bytes : Bytes) (h : Host) : Except IoError Unit × Host :=
  match s.backing with
  | .memory =>
    match h.segment? s.key with
    | some _ => (.ok (), h.writeSegment s.key bytes)
    | none => (.error ⟨.notFound, some "segment released"⟩, h)
  | .file _ id =>
    let old := h.files.bytesOf id
    let written := bytes.toByteArray ++ old.extract bytes.length old.size
    (.ok (), { h with files := h.files.setBytes id written })
  | .unwritable e _ => (.error e, h)

/-- Removes a segment. Its file may be gone already, which goes unheard. -/
def remove (s : Segment) (h : Host) : Host :=
  match s.backing with
  | .memory => h.removeSegment s.key
  | .file path _ =>
    match h.files.remove path with
    | .ok files => { h with files := files }
    | .error _ => h
  | .unwritable .. => h

end Segment

structure QueryBuffer where
  provider : SegmentProvider := .memory
  attached : Option Segment := none
  deriving DecidableEq, Repr

namespace QueryBuffer

/-- The length of a copy, if a segment can hold it. -/
def checkLength (len : Nat) : Except QueryError Nat :=
  if len ≤ segmentSize then .ok len else .error (.tooLong len)

/-- The key of the attached segment. -/
def attachedKey? (q : QueryBuffer) : Option UInt8 := q.attached.map Segment.key

/-- Makes sure that a segment is attached. -/
def ensure (q : QueryBuffer) (key : UInt8) (h : Host) : Except QueryError (Segment × Host) :=
  match q.attached with
  | some segment => .ok (segment, h)
  | none =>
    match q.provider.attach key h with
    | .ok attached => .ok attached
    | .error e => .error (.attach key e)

/-- Copies bytes into the segment, which is attached first if need be. -/
def store (q : QueryBuffer) (key : UInt8) (bytes : Bytes) (h : Host) :
    Except QueryError Unit × QueryBuffer × Host :=
  match checkLength bytes.length with
  | .error e => (.error e, q, h)
  | .ok _ =>
    match q.ensure key h with
    | .error e => (.error e, q, h)
    | .ok (segment, h) =>
      let (outcome, h) := segment.write bytes h
      (outcome.mapError (.write segment.key), { q with attached := some segment }, h)

/-- Releases the segment, if one is attached. -/
def release (q : QueryBuffer) (h : Host) : QueryBuffer × Host :=
  match q.attached with
  | none => (q, h)
  | some segment => ({ q with attached := none }, segment.remove h)

end QueryBuffer

end ConsoleBus
