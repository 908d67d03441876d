import ConsoleBus.Memory.Isolation
import ConsoleBus.Memory.View

/-!
The memory bus of the execution side, and the handle through which everyone else reaches the same
storage. Loads and stores never fail: what cannot be served is counted. Each operation gives, beside
the new bus, the effects that others have to hear of: observers of stores, the holder of compiled
code, and the hardware registers.
-/

namespace ConsoleBus

/-- The width of an access. -/
inductive Width where
  | byte
  | half
  | word
  deriving DecidableEq, Repr

namespace Width

/-- The number of bytes accessed. -/
def bytes : Width → Nat
  | byte => 1
  | half => 2
  | word => 4

/-- The part of a value that fits the width. -/
def narrow (w : Width) (v : UInt32) : UInt32 := UInt32.ofNat (v.toNat % Bytes.bound w.bytes)

theorem narrow_of_lt {w : Width} {v : UInt32} (small : v.toNat < Bytes.bound w.bytes) :
    w.narrow v = v := by
  rw [narrow, Nat.mod_eq_of_lt small, UInt32.ofNat_toNat]

theorem narrow_word (v : UInt32) : word.narrow v = v := narrow_of_lt v.toNat_lt

end Width

/-- What others have to hear of. -/
inductive Effect where
  /-- A store reached its bytes; the last part is what a reader sees there now. -/
  | observed (addr : Address) (width : Nat) (seen : Except MemoryError Bytes)
  /-- Compiled code is void in so many words from an address on. -/
  | invalidated (addr : Address) (words : Nat)
  /-- All compiled code is void. -/
  | invalidatedAll
  | registerRead (addr : Address) (width : Width)
  | registerWrite (addr : Address) (width : Width) (value : UInt32)

/-- Whoever answers for the hardware registers. -/
structure RegisterHandler where
  read : Memory → Address → Width → UInt32
  write : Memory → Address → Width → UInt32 → Memory

namespace RegisterHandler

/-- Registers that behave like memory in the hardware window. An access past the window's end reads
zero or changes nothing. -/
def plain : RegisterHandler where
  read m addr w :=
    match m.read? .hardware (pageOffset addr) w.bytes with
    | some bytes => UInt32.ofNat (Bytes.ofLE bytes)
    | none => 0
  write m addr w value :=
    m.write ⟨.hardware, pageOffset addr⟩ (Bytes.toLE w.bytes value.toNat)

/-- Registers outside of memory: a read answers its own address, scrambled, and a store leaves no
trace. -/
def scrambled : RegisterHandler where
  read _ addr _ := addr ^^^ 0xdeadbeef
  write m _ _ _ := m

end RegisterHandler

/-- How many accesses found no memory. The counters have 64 bits and would start over; numbers stand
for them here, and differ from them only after 2 ^ 64 accesses. -/
structure AccessStats where
  unmappedReads : Nat := 0
  unmappedWrites : Nat := 0
  deriving DecidableEq, Repr

/-- The bus, with the storage that it shares with its handles. -/
structure Bus where
  memory : Memory := .zeroed
  isolation : Isolation := .powerOn
  stats : AccessStats := {}
  registers : RegisterHandler := .plain

namespace Bus

/-- Counts a read that found no memory. -/
def missRead (b : Bus) : Bus :=
  { b with stats := { b.stats with unmappedReads := b.stats.unmappedReads + 1 } }

/-- Counts a store that found no memory. -/
def missWrite (b : Bus) : Bus :=
  { b with stats := { b.stats with unmappedWrites := b.stats.unmappedWrites + 1 } }

/-- Loads from a location. -/
def loadAt (b : Bus) (loc : Location) (w : Width) : UInt32 × Bus × List Effect :=
  match b.memory.read? loc.region loc.offset w.bytes with
  | some bytes => (UInt32.ofNat (Bytes.ofLE bytes), b, [])
  | none => (0, b.missRead, [])

/-- Loads from an address. -/
def load (b : Bus) (addr : Address) (w : Width) : UInt32 × Bus × List Effect :=
  match classify addr with
  | .scratchpad offset => b.loadAt ⟨.hardware, offset⟩ w
  | .hardwareRegister =>
    (w.narrow (b.registers.read b.memory addr w), b, [.registerRead addr w])
  | .table =>
    match PageTable.powerOnRead.resolve addr with
    | some loc => b.loadAt loc w
    | none => (0, b.missRead, [])

/-- Puts bytes at a location. -/
def putAt (b : Bus) (loc : Location) (bytes : Bytes) : Bus :=
  match b with
  | ⟨memory, isolation, stats, registers⟩ => ⟨memory.write loc bytes, isolation, stats, registers⟩

/-- A store to a page that is not mapped: a command for the isolation switch, an isolated store that
only flushes a cache line, or a miss. -/
def storeUnmapped (b : Bus) (addr : Address) (w : Width) (value : UInt32) : Bus × List Effect :=
  if addr = cacheControl ∧ w = .word then
    let (isolation, change) := b.isolation.apply value
    ({ b with isolation := isolation }, if change = .isolated then [.invalidatedAll] else [])
  else if b.isolation.active then (b, [.invalidated addr 1])
  else (b.missWrite, [])

/-- Stores to an address. -/
def store (b : Bus) (addr : Address) (w : Width) (value : UInt32) : Bus × List Effect :=
  let bytes := Bytes.toLE w.bytes value.toNat
  match classify addr with
  | .scratchpad offset =>
    if Memory.Fits ⟨.hardware, offset⟩ bytes.length then
      let b := b.putAt ⟨.hardware, offset⟩ bytes
      (b, [.observed addr w.bytes (b.memory.view addr w.bytes)])
    else (b, [])
  | .hardwareRegister =>
    ({ b with memory := b.registers.write b.memory addr w value }, [.registerWrite addr w value])
  | .table =>
    match b.isolation.table.resolve addr with
    | some loc =>
      if Memory.Fits loc bytes.length then
        let b := b.putAt loc bytes
        (b, [.observed addr w.bytes (b.memory.view addr w.bytes), .invalidated (addr / 4 * 4) 1])
      else (b.missWrite, [])
    | none => b.storeUnmapped addr w value

/-- Stores one byte through a handle. Handles use the power-on tables; while the cache is isolated
they drop stores to RAM and still succeed. -/
def storeByHandle (b : Bus) (addr : Address) (value : UInt8) :
    Except MemoryError Unit × Bus × List Effect :=
  match PageTable.powerOnWrite.locate addr with
  | .error e => (.error e, b, [])
  | .ok loc =>
    if loc.region = .ram ∧ b.isolation.active then (.ok (), b, [])
    else
      let b := b.putAt loc [value]
      (.ok (), b, [.observed addr 1 (b.memory.view addr 1)])

end Bus

end ConsoleBus
