import ConsoleBus.Memory.Store
import ConsoleBus.Memory.Map

/-!
Reading memory by address. A view resolves an address each time it is asked and copies the bytes it
finds, so nobody holds on to a place in storage.
-/

namespace ConsoleBus

/-- The block of `len` bytes from `addr` on, seen through a table. -/
def Memory.blockVia (m : Memory) (t : PageTable) (addr : Address) (len : Nat) :
    Except MemoryError ByteArray :=
  match t.resolveRange addr len with
  | .error e => .error e
  | .ok range => .ok ((m.region range.region).slice range.offset range.len)

/-- The block of `len` bytes from `addr` on, as every reader sees it. -/
def Memory.block (m : Memory) (addr : Address) (len : Nat) : Except MemoryError ByteArray :=
  m.blockVia .powerOnRead addr len

/-- The `len` bytes from `addr` on, seen through a table. -/
def Memory.readVia (m : Memory) (t : PageTable) (addr : Address) (len : Nat) :
    Except MemoryError Bytes :=
  (m.blockVia t addr len).map fun block => block.data.toList

/-- The `len` bytes from `addr` on, as every reader sees them. -/
def Memory.view (m : Memory) (addr : Address) (len : Nat) : Except MemoryError Bytes :=
  m.readVia .powerOnRead addr len

/-- A range that a table gives lies within its region, so all of it can be read. -/
theorem Memory.readVia_eq (m : Memory) (t : PageTable) (addr : Address) (len : Nat) :
    m.readVia t addr len =
      (t.resolveRange addr len).map fun range =>
        (m.read? range.region range.offset range.len).getD [] := by
  cases h : t.resolveRange addr len with
  | error e => simp [readVia, blockVia, h, Except.map]
  | ok range =>
    have fits : range.offset + range.len ≤ range.region.size := by
      unfold PageTable.resolveRange at h
      split at h
      · cases h
      · split at h
        · next fits => cases h; exact fits
        · cases h
    simp [readVia, blockVia, h, Except.map, read?, Backing.read?, fits]

end ConsoleBus
