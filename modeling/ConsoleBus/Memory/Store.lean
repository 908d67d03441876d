import ConsoleBus.Memory.Backing
import ConsoleBus.Memory.Error

/-!
The backing storage of the console: one block of bytes for each region. `Memory.byte` is its view, a
byte for each location; `byte_write` says that a write changes the bytes it covers and no other.
-/

namespace ConsoleBus

/-- The bytes behind the console's address space. -/
structure Memory where
  ram : Backing Region.ram.size
  parallel : Backing Region.parallel.size
  hardware : Backing Region.hardware.size
  bios : Backing Region.bios.size

namespace Memory

/-- Storage in which each region is filled with one byte. -/
def filled (fill : Region → UInt8) : Memory where
  ram := .filled _ (fill .ram)
  parallel := .filled _ (fill .parallel)
  hardware := .filled _ (fill .hardware)
  bios := .filled _ (fill .bios)

/-- Storage at power-on. -/
def zeroed : Memory := filled fun _ => 0

/-- The block behind a region. -/
def region (m : Memory) : (r : Region) → Backing r.size
  | .ram => m.ram
  | .parallel => m.parallel
  | .hardware => m.hardware
  | .bios => m.bios

/-- The storage with one region replaced. -/
def setRegion (m : Memory) : (r : Region) → Backing r.size → Memory
  | .ram, b => { m with ram := b }
  | .parallel, b => { m with parallel := b }
  | .hardware, b => { m with hardware := b }
  | .bios, b => { m with bios := b }

@[simp] theorem region_setRegion_self (m : Memory) (r : Region) (b : Backing r.size) :
    (m.setRegion r b).region r = b := by cases r <;> rfl

theorem region_setRegion_ne (m : Memory) {r s : Region} (b : Backing r.size) (h : s ≠ r) :
    (m.setRegion r b).region s = m.region s := by
  cases r <;> cases s <;> first | rfl | exact absurd rfl h

/-- The byte at a location. -/
def byte (m : Memory) (loc : Location) : UInt8 := (m.region loc.region).get loc.offset

/-- The bytes of a range, or nothing if it runs past its region. -/
def read? (m : Memory) (r : Region) (offset len : Nat) : Option Bytes :=
  (m.region r).read? offset len

/-- Stores bytes from a location on, or does nothing if they run past its region. -/
def write? (m : Memory) (loc : Location) (bytes : Bytes) : Option Memory :=
  ((m.region loc.region).write? loc.offset bytes).map (m.setRegion loc.region)

theorem write?_eq_none_iff {m : Memory} {loc : Location} {bytes : Bytes} :
    m.write? loc bytes = none ↔ loc.region.size < loc.offset + bytes.length := by
  simp [write?, Backing.write?]

/-- Stores bytes from a location on, or leaves everything as it is if they run past its region.
Storage that nobody else holds is changed in place. -/
def write (m : Memory) (loc : Location) (bytes : Bytes) : Memory :=
  match m, loc with
  | ⟨ram, parallel, hardware, bios⟩, ⟨.ram, offset⟩ =>
    ⟨ram.write offset bytes, parallel, hardware, bios⟩
  | ⟨ram, parallel, hardware, bios⟩, ⟨.parallel, offset⟩ =>
    ⟨ram, parallel.write offset bytes, hardware, bios⟩
  | ⟨ram, parallel, hardware, bios⟩, ⟨.hardware, offset⟩ =>
    ⟨ram, parallel, hardware.write offset bytes, bios⟩
  | ⟨ram, parallel, hardware, bios⟩, ⟨.bios, offset⟩ =>
    ⟨ram, parallel, hardware, bios.write offset bytes⟩

theorem write_eq_getD_write? (m : Memory) (loc : Location) (bytes : Bytes) :
    m.write loc bytes = (m.write? loc bytes).getD m := by
  obtain ⟨r, offset⟩ := loc
  cases r <;> simp only [write, write?, Backing.write_eq_getD, region] <;>
    cases Backing.write? _ offset bytes <;> rfl

/-- Whether so many bytes from a location on stay within its region. -/
def Fits (loc : Location) (len : Nat) : Prop := loc.offset + len ≤ loc.region.size

instance (loc : Location) (len : Nat) : Decidable (Fits loc len) :=
  inferInstanceAs (Decidable (loc.offset + len ≤ loc.region.size))

/-- Bytes are stored exactly where they fit. -/
theorem write?_eq (m : Memory) (loc : Location) (bytes : Bytes) :
    m.write? loc bytes = if Fits loc bytes.length then some (m.write loc bytes) else none := by
  rw [write_eq_getD_write?]
  cases h : m.write? loc bytes with
  | none =>
    have late : ¬ Fits loc bytes.length := Nat.not_le_of_lt (write?_eq_none_iff.1 h)
    rw [if_neg late]
  | some m' =>
    have fits : Fits loc bytes.length := Nat.le_of_not_lt fun late => by
      rw [write?_eq_none_iff.2 late] at h
      cases h
    rw [if_pos fits, Option.getD_some]

/-- Whether `loc` is one of `len` locations from `start` on. -/
def Covers (start : Location) (len : Nat) (loc : Location) : Prop :=
  loc.region = start.region ∧ start.offset ≤ loc.offset ∧ loc.offset < start.offset + len

theorem byte_write {m m' : Memory} {start : Location} {bytes : Bytes}
    (h : m.write? start bytes = some m') (loc : Location) :
    m'.byte loc = if loc.region = start.region ∧ start.offset ≤ loc.offset then
      (bytes[loc.offset - start.offset]?).getD (m.byte loc) else m.byte loc := by
  obtain ⟨region, offset⟩ := loc
  obtain ⟨r, o⟩ := start
  obtain ⟨c, hc, rfl⟩ := Option.map_eq_some_iff.1 h
  simp only [byte] at hc ⊢
  by_cases hr : region = r
  · subst hr
    rw [region_setRegion_self, Backing.get_write hc]
    simp
  · rw [region_setRegion_ne _ _ hr]
    simp [hr]

/-- Fills a whole region. -/
def fill (m : Memory) (r : Region) (v : UInt8) : Memory := m.setRegion r (.filled _ v)

/-- Puts an image into the ROM and clears what is left of it. -/
def loadBios (m : Memory) (image : Bytes) : Except MemoryError Memory :=
  if image.length ≤ Region.bios.size then
    let blank : Backing Region.bios.size := .filled _ 0
    .ok (m.setRegion .bios ((blank.write? 0 image).getD blank))
  else .error (.biosTooLarge image.length Region.bios.size)

/-- Power-on reset: RAM and the parallel port are cleared, the rest stays. -/
def reset (m : Memory) : Memory := (m.fill .ram 0).fill .parallel 0

end Memory

end ConsoleBus
