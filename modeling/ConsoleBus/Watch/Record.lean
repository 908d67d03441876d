import ConsoleBus.Channel.Source
import ConsoleBus.Watch.Spec

/-!
Hook lists in binary form. A record is three little-endian words: the start, the length as a signed
number, and a word of flags. The flag word's first byte is the key with the top bit set for a hook
that begins silenced; its second and third bytes count as set only when they are 1.
-/

namespace ConsoleBus.HookRecord

/-- The length of a record. -/
def recordLength : Nat := 12

/-- The bit of the key byte that marks a silenced hook. -/
def silencedBit : UInt8 := 0x80

/-- The record of one hook. A key above the largest one loses its top bit. -/
def encode (s : HookSpec) : Bytes :=
  Bytes.toLE 4 s.start.toNat ++ Bytes.toLE 4 s.length.toNat ++
    [s.key &&& maxHookKey ||| (if s.silenced then silencedBit else 0),
      if s.dedupe then 1 else 0, if s.coalesce then 1 else 0, 0]

/-- The records of a hook list. -/
def encodeAll (specs : List HookSpec) : Bytes := specs.flatMap encode

/-- Reads one record. -/
def decode (record : Bytes) : Except HookError HookSpec :=
  let start := Bytes.ofLE (record.take 4)
  let length := Bytes.ofLE ((record.drop 4).take 4)
  let rawKey := record.getD 8 0
  let key := rawKey &&& maxHookKey
  if 0x80000000 ≤ length then .error (.negativeLength key (length - UInt32.size))
  else
    .ok {
      key := key
      start := UInt32.ofNat start
      length := UInt32.ofNat length
      dedupe := record.getD 9 0 = 1
      coalesce := record.getD 10 0 = 1
      silenced := rawKey &&& silencedBit ≠ 0 }

/-- Reads the records from number `read` on, of `expected` in all. -/
def readFrom (read expected : Nat) : Nat → Source → Except HookError (List HookSpec) × Source
  | 0, s => (.ok [], s)
  | left + 1, s =>
    match s.readExact recordLength with
    | (.error e, s) =>
      if e.kind = .unexpectedEof then (.error (.truncated read expected), s)
      else (.error (.io e), s)
    | (.ok record, s) =>
      match decode record with
      | .error e => (.error e, s)
      | .ok spec =>
        match readFrom (read + 1) expected left s with
        | (.ok specs, s) => (.ok (spec :: specs), s)
        | (.error e, s) => (.error e, s)

/-- Reads `count` records, where there is room for their hooks. -/
def read (count : Nat) (s : Source) : Except HookError (List HookSpec) × Source :=
  readFrom 0 count count s

/-- The bytes that a hook takes in memory: two words, the key, and three flags. -/
def specSize : Nat := 4 + 4 + 1 + 3

/-- The most bytes that can be asked for at once. -/
def maxRequest : Nat := 0x7fffffffffffffff

/-- Reads a hook list of `count` records. Room for all its hooks is asked for first, before anything
is read; where that is more than can be asked for, the program panics, and there is no answer. -/
def readList (count : Nat) (s : Source) : Option (Except HookError (List HookSpec) × Source) :=
  if maxRequest < specSize * count then none else some (read count s)

end ConsoleBus.HookRecord
