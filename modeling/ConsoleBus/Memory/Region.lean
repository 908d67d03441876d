import ConsoleBus.Bytes

/-!
The four backing regions of the console and the places inside them. Everything that the address
map produces is a `Location` or a `Range` here; the bytes themselves are in `Memory.Store`.
-/

namespace ConsoleBus

/-- A backing region. The hardware window holds the scratchpad (its first kilobyte) and the
register file. -/
inductive Region where
  | ram
  | parallel
  | hardware
  | bios
  deriving DecidableEq, Repr

namespace Region

/-- The number of bytes in a region. -/
def size : Region → Nat
  | ram => 0x200000
  | parallel => 0x10000
  | hardware => 0x10000
  | bios => 0x80000

/-- The region's name in messages. -/
def name : Region → String
  | ram => "RAM"
  | parallel => "parallel port"
  | hardware => "scratchpad/hardware window"
  | bios => "BIOS ROM"

/-- The region's name in commands. -/
def id : Region → String
  | ram => "ram"
  | parallel => "parallel"
  | hardware => "hardware"
  | bios => "bios"

/-- The regions in their fixed order. -/
def all : List Region := [ram, parallel, hardware, bios]

/-- The region that a command names. -/
def ofId? (id : String) : Option Region := all.find? fun r => r.id == id

theorem mem_all (r : Region) : r ∈ all := by cases r <;> simp [all]

end Region

/-- The length of the scratchpad, the first part of the hardware window. -/
def scratchpadSize : Nat := 0x400

/-- One byte of backing storage. -/
structure Location where
  region : Region
  offset : Nat
  deriving DecidableEq, Repr

/-- `len` consecutive bytes of one region. -/
structure Range where
  region : Region
  offset : Nat
  len : Nat
  deriving DecidableEq, Repr

end ConsoleBus
