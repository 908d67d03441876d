import ConsoleBus.Memory.Region
import ConsoleBus.Text.Hex

/-!
Why an access to memory is refused. Only accesses from outside the execution side are refused; the
bus itself counts what it cannot serve and goes on.
-/

namespace ConsoleBus

inductive MemoryError where
  /-- No page table entry covers the address. -/
  | unmapped (addr : Address)
  /-- The address is a hardware register, which has no bytes of its own. -/
  | noBacking (addr : Address)
  /-- The range is longer than what is left of its region. -/
  | outOfBounds (addr : Address) (len : Nat) (region : Region)
  /-- The image does not fit into the ROM. -/
  | biosTooLarge (len max : Nat)
  deriving DecidableEq, Repr

namespace MemoryError

/-- The published name of an error. -/
def name : MemoryError → String
  | unmapped _ => "Unmapped"
  | noBacking _ => "NoBacking"
  | outOfBounds .. => "OutOfBounds"
  | biosTooLarge .. => "BiosTooLarge"

def message : MemoryError → String
  | unmapped addr => s!"address {Text.address addr} is not mapped"
  | noBacking addr =>
    s!"address {Text.address addr} is a hardware register without direct backing"
  | outOfBounds addr len region =>
    s!"range {Text.address addr}+{len} runs past the end of {region.name}"
  | biosTooLarge len max => s!"BIOS image is {len} bytes, expected at most {max} bytes"

end MemoryError

end ConsoleBus
