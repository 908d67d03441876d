import ConsoleBus.Bytes
import ConsoleBus.IoError

/-!
Where bytes come from. A source is the list of what its reads will meet: chunks of bytes, which one
read never crosses, and failures. An empty chunk is a read that finds the end, and so is every read
after the last entry. A failure of the kind `interrupted` is no more than a reason to read again.
-/

namespace ConsoleBus

/-- What a read can meet. -/
inductive Chunk where
  | data (bytes : Bytes)
  | fault (error : IoError)
  deriving DecidableEq, Repr

/-- An input channel, as the reads to come. -/
abbrev Source := List Chunk

namespace Source

/-- The bytes that a chunk holds. -/
def chunkBytes : Chunk → Bytes
  | .data bytes => bytes
  | .fault _ => []

/-- The bytes that are still in the source. -/
def bytes (s : Source) : Bytes := s.flatMap chunkBytes

/-- Puts back what a read left of its chunk. -/
def putBack (rest : Bytes) (s : Source) : Source :=
  if rest = [] then s else .data rest :: s

/-- Reads exactly `n` bytes. Where the source ends or fails first, the bytes taken until then are
lost. -/
def readExact : Nat → Source → Except IoError Bytes × Source
  | 0, s => (.ok [], s)
  | _ + 1, [] => (.error .unexpectedEof, [])
  | n + 1, .fault e :: s =>
    if e.kind = .interrupted then readExact (n + 1) s else (.error e, s)
  | _ + 1, .data [] :: s => (.error .unexpectedEof, s)
  | n + 1, .data (b :: bs) :: s =>
    let taken := bs.take n
    if taken.length = n then (.ok (b :: taken), putBack (bs.drop n) s)
    else
      match readExact (n - taken.length) s with
      | (.ok more, s) => (.ok (b :: taken ++ more), s)
      | (.error e, s) => (.error e, s)

end Source

end ConsoleBus
