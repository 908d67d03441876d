import ConsoleBus.IoError
import ConsoleBus.Memory.Store

/-!
Images of the machine's memory: eight bytes that mark an image, then RAM, the parallel port and the
scratchpad. An image is read back only if it has the mark and exactly the right length, so what is
refused leaves the memory as it was.
-/

namespace ConsoleBus

/-- A part of memory that an image holds. -/
structure Section where
  region : Region
  offset : Nat
  len : Nat
  deriving DecidableEq, Repr

/-- A part ends within its region. -/
def Section.Fits (s : Section) : Prop := s.offset + s.len ≤ s.region.size

namespace Image

/-- The bytes that open an image: the text `PSXRAM01`. -/
def mark : ByteArray := ⟨#[0x50, 0x53, 0x58, 0x52, 0x41, 0x4d, 0x30, 0x31]⟩

/-- The parts of an image, in their order. -/
def sections : List Section :=
  [⟨.ram, 0, Region.ram.size⟩, ⟨.parallel, 0, Region.parallel.size⟩,
    ⟨.hardware, 0, scratchpadSize⟩]

/-- The length of every image. -/
def length : Nat := sections.foldl (fun n s => n + s.len) mark.size

/-- The bytes of one part. -/
def slice (m : Memory) (s : Section) : ByteArray := (m.region s.region).slice s.offset s.len

/-- The image of a memory. -/
def encode (m : Memory) : ByteArray :=
  sections.foldl (fun image s => image ++ slice m s) mark

/-- Puts the bytes of one part back. -/
def restore (m : Memory) (s : Section) (bytes : ByteArray) : Memory :=
  (((m.region s.region).writeArray? s.offset bytes).map (m.setRegion s.region)).getD m

/-- Puts parts back that stand in a row from an offset of the image on. -/
def restoreFrom (image : ByteArray) : Nat → List Section → Memory → Memory
  | _, [], m => m
  | at_, s :: rest, m =>
    restoreFrom image (at_ + s.len) rest (restore m s (image.extract at_ (at_ + s.len)))

/-- Whether a byte string is an image. -/
def isImage (image : ByteArray) : Bool :=
  image.size == length && image.extract 0 mark.size == mark

/-- Puts an image into memory; what an image does not hold stays as it is. -/
def decode (image : ByteArray) (m : Memory) : Except IoError Memory :=
  if isImage image then .ok (restoreFrom image mark.size sections m)
  else .error ⟨.invalidData, some s!"not a RAM image ({image.size} bytes)"⟩

end Image

end ConsoleBus
