import ConsoleBus.Machine.Basic

/-!
What can be asked of a machine, as data, so that a sequence of operations is a list. A scripted
processor is such a list for each slice.
-/

namespace ConsoleBus

inductive Command where
  | load (width : Width) (addr : Address)
  | store (width : Width) (addr : Address) (value : UInt32)
  /-- Reads bytes through a handle. -/
  | handleRead (addr : Address) (len : Nat)
  /-- Stores a byte through a handle. -/
  | handleWrite (addr : Address) (value : UInt8)
  | resolveRange (addr : Address) (len : Nat)
  /-- Like `resolveRange`, but only tells whether there is a range. -/
  | hostRange (addr : Address) (len : Nat)
  | stats
  /-- Whether the bus and a new handle see the cache isolated. -/
  | isolated
  | invalidateAll
  | flush
  | silence (key : UInt8)
  | unsilence (key : UInt8)
  | states
  /-- The notifier's counters. -/
  | counts
  /-- Evaluates the hooks as if a store had happened. -/
  | evaluate (addr : Address) (width : Nat)
  | loadBios (image : Bytes)
  | reset
  | describe (region : Region)
  | fill (region : Region) (value : UInt8)
  | dump (region : Region)
  /-- Reads storage directly. -/
  | peek (region : Region) (offset len : Nat)
  /-- Writes storage directly. -/
  | poke (region : Region) (offset : Nat) (bytes : Bytes)

/-- What a command answers. -/
inductive Answer where
  | done
  | word (value : UInt32)
  | count (n : Nat)
  | flag (b : Bool)
  | bytes (bytes : Bytes)
  | range (range : Option Range)
  | pair (first second : Nat)
  | flags (first second : Bool)
  | states (states : List (UInt8 × HookState))
  | region (region : Region)
  | contents (bytes : ByteArray)
  /-- The bytes of a direct read of some length, if it was within the region. -/
  | peeked (len : Nat) (bytes : Option Bytes)
  | refused (error : MemoryError)

namespace Answer

/-- The answer of an operation that may be refused. -/
def ofExcept {α : Type} (f : α → Answer) : Except MemoryError α → Answer
  | .ok a => f a
  | .error e => .refused e

end Answer

namespace Machine

/-- Carries out a command. -/
def perform (m : Machine) : Command → Answer × Machine × List Effect
  | .load w addr =>
    let (value, m, effects) := m.load addr w
    (.word value, m, effects)
  | .store w addr value =>
    let (m, effects) := m.store addr w (w.narrow value)
    (.done, m, effects)
  | .handleRead addr len => (.ofExcept .bytes (m.bus.memory.view addr len), m, [])
  | .handleWrite addr value =>
    let (outcome, m, effects) := m.storeByHandle addr value
    (.ofExcept (fun _ => .done) outcome, m, effects)
  | .resolveRange addr len =>
    (.ofExcept (fun range => .range (some range)) (PageTable.powerOnRead.resolveRange addr len), m,
      [])
  | .hostRange addr len => (.range (PageTable.powerOnRead.resolveRange addr len).toOption, m, [])
  | .stats => (.pair m.bus.stats.unmappedReads m.bus.stats.unmappedWrites, m, [])
  | .isolated => (.flags m.bus.isolation.active m.bus.isolation.active, m, [])
  | .invalidateAll => (.done, m, [.invalidatedAll])
  | .flush =>
    let (m, n) := m.flush
    (.count n, m, [])
  | .silence key =>
    let (m, found) := m.silence key
    (.flag found, m, [])
  | .unsilence key =>
    let (m, found) := m.unsilence key
    (.flag found, m, [])
  | .states => (.states m.registry.states, m, [])
  | .counts => (.pair m.notifier.sent m.notifier.failures, m, [])
  | .evaluate addr width => (.done, m.evaluate addr width, [])
  | .loadBios image =>
    match m.bus.memory.loadBios image with
    | .ok memory => (.done, m.mapMemory fun _ => memory, [])
    | .error e => (.refused e, m, [])
  | .reset => (.done, m.mapMemory Memory.reset, [])
  | .describe region => (.region region, m, [])
  | .fill region value => (.done, m.mapMemory fun memory => memory.fill region value, [])
  | .dump region => (.contents (m.bus.memory.region region).bytes, m, [])
  | .peek region offset len => (.peeked len (m.bus.memory.read? region offset len), m, [])
  | .poke region offset bytes =>
    if Memory.Fits ⟨region, offset⟩ bytes.length then
      (.flag true, m.mapMemory fun memory => memory.write ⟨region, offset⟩ bytes, [])
    else (.flag false, m, [])

/-- Carries out commands one after the other. -/
def performAll (m : Machine) : List Command → List Answer × Machine × List Effect
  | [] => ([], m, [])
  | c :: cs =>
    let (answer, m, effects) := m.perform c
    let (answers, m, more) := m.performAll cs
    (answer :: answers, m, effects ++ more)

end Machine

end ConsoleBus
