import ConsoleBus.Proofs.FlatStore
import ConsoleBus.Proofs.IsolationScope

/-!
A handle beside the bus. A byte stored through a handle leaves the same storage, the same hooks and
the same messages as a byte stored on the bus (`Machine.next_handleWrite_eq`), though the one goes by
the power-on table and the flag and the other by the table that isolation blanks. A handle refuses
just the addresses that nothing serves (`Bus.outcome_storeByHandle`), and what it reads the bus loads
byte by byte (`Bus.load_of_view`). The scratchpad is served in all three segments although the
tables have a page for one of them only (`Machine.scratchpad_copy_off_table`).
-/

namespace ConsoleBus

open PageTable

variable {addr : Address} {loc : Location}

/-! ### Places through the views -/

namespace PageTable

theorem view_end_le {r : Region} {base : Nat} (h : base ∈ r.views) : base + r.size ≤ 0x100000000 := by
  cases r <;>
    simp [Region.views, ramPages, biosPages, hardwarePages, parallelPage, pageSize, Region.size,
      List.range_succ] at h ⊢ <;>
    omega

/-- The bus finds all of a region through each of its views, the registers included. -/
theorem place?_of_view {base : Nat} (h : base ∈ loc.region.views)
    (inside : loc.offset < loc.region.size) (haddr : addr.toNat = base + loc.offset) :
    powerOnRead.place? addr = some loc := by
  by_cases visible : loc.offset < loc.region.visibleSize
  · exact place?_of_locate (locate_powerOnRead_iff.2 ⟨visible, base, h, haddr⟩)
  · obtain ⟨r, o⟩ := loc
    cases r with
    | hardware =>
      obtain ⟨page, hp, rfl⟩ := List.mem_map.1 h
      have here : pageOf addr = page ∧ pageOffset addr = o := by
        simp only [Region.size] at inside
        simp only [pageOf, pageOffset, pageSize] at haddr ⊢
        omega
      have register : classify addr = .hardwareRegister := by
        rw [classify_eq_hardwareRegister_iff, here.1, here.2]
        exact ⟨hp, Nat.le_of_not_lt visible⟩
      rw [place?_register register, here.2]
    | _ => exact absurd inside visible

/-- The rest of a located region is within the address space. -/
theorem toNat_add_of_locate (located : powerOnRead.locate addr = .ok loc) {i : Nat}
    (inside : loc.offset + i < loc.region.size) :
    (addr + UInt32.ofNat i).toNat = addr.toNat + i ∧ addr.toNat + i < UInt32.size := by
  obtain ⟨-, base, hbase, haddr⟩ := locate_powerOnRead_iff.1 located
  have bound := view_end_le hbase
  rw [UInt32.toNat_add, UInt32.toNat_ofNat', UInt32.size]
  omega

/-- What follows a located byte in its region is found at the addresses that follow. -/
theorem place?_add (located : powerOnRead.locate addr = .ok loc) {i : Nat}
    (inside : loc.offset + i < loc.region.size) :
    powerOnRead.place? (addr + UInt32.ofNat i) = some ⟨loc.region, loc.offset + i⟩ := by
  obtain ⟨-, base, hbase, haddr⟩ := locate_powerOnRead_iff.1 located
  refine place?_of_view hbase inside ?_
  rw [(toNat_add_of_locate located inside).1, haddr, Nat.add_assoc]

/-- The addresses that the power-on table sends to RAM are those in the RAM windows. -/
theorem region_of_locate (located : powerOnWrite.locate addr = .ok loc) :
    loc.region = .ram ↔ InRamWindow addr := by
  rw [inRamWindow_iff]
  rcases locate_eq_ok_iff.1 located with ⟨scratchpad, hardware⟩ | ⟨-, resolved⟩
  · obtain ⟨hp, -⟩ := classify_eq_scratchpad_iff.1 scratchpad
    rw [hardware, isRamPage_iff]
    simp only [hardwarePages, List.mem_cons, List.not_mem_nil, or_false] at hp
    refine iff_of_false ?_ ?_
    · intro ram
      cases ram
    · omega
  · obtain ⟨e, he, hr, -⟩ := resolve_eq_some_iff.1 resolved
    rw [hr, isRamPage_iff_of_entry he]

/-- What is no register and not unserved the power-on table has in place. -/
theorem exists_locate (backed : classify addr ≠ .hardwareRegister) (served : ¬ Unserved addr) :
    ∃ loc, powerOnWrite.locate addr = .ok loc := by
  cases hc : classify addr with
  | hardwareRegister => exact absurd hc backed
  | scratchpad offset => exact ⟨⟨.hardware, offset⟩, by rw [locate, hc]⟩
  | table =>
    cases hr : powerOnWrite.resolve addr with
    | none => exact absurd ⟨hc, hr⟩ served
    | some loc => exact ⟨loc, by simp [locate, hc, hr]⟩

end PageTable

/-! ### One byte stored -/

theorem Bytes.toLE_byte (v : UInt8) : toLE 1 v.toUInt32.toNat = [v] := by
  rw [toLE, toLE, UInt8.toNat_toUInt32, UInt8.ofNat_toNat]

theorem Bytes.ofLE_byte (v : UInt8) : UInt32.ofNat (ofLE [v]) = v.toUInt32 := by
  have small : v.toNat < 256 := v.toNat_lt
  apply UInt32.toNat.inj
  rw [UInt32.toNat_ofNat', UInt8.toNat_toUInt32, ofLE, ofLE]
  omega

namespace Bus

variable {b : Bus}

/-- A handle refuses the addresses that nothing serves, and no other but the registers. -/
theorem outcome_storeByHandle (b : Bus) (backed : classify addr ≠ .hardwareRegister)
    (value : UInt8) :
    (b.storeByHandle addr value).1 =
      if Unserved addr then .error (.unmapped addr) else .ok () := by
  unfold storeByHandle
  by_cases unserved : Unserved addr
  · have nowhere : powerOnWrite.locate addr = .error (.unmapped addr) := by
      simp [locate, unserved.1, unserved.2]
    rw [nowhere, if_pos unserved]
  · obtain ⟨loc, located⟩ := exists_locate backed unserved
    rw [located, if_neg unserved]
    simp only
    split <;> rfl

/-- What a handle stores at an address that is served and not kept from RAM is there afterwards. -/
theorem byte_storeByHandle (h : b.isolation.Coherent) (backed : classify addr ≠ .hardwareRegister)
    (served : ¬ Unserved addr) (clear : ¬ (InRamWindow addr ∧ b.isolation.active = true))
    (value : UInt8) :
    ∃ loc, powerOnWrite.locate addr = .ok loc ∧
      (b.storeByHandle addr value).2.1.memory.byte loc = value := by
  obtain ⟨loc, located⟩ := exists_locate backed served
  have fits : Memory.Fits loc 1 := (canonical_of_locate (locate_powerOnRead_of_write located)).2
  have target : b.target? addr 1 = some loc := (target?_iff_admits h).2
    ⟨located, fits, fun both => clear ⟨(region_of_locate located).1 both.2, both.1⟩⟩
  refine ⟨loc, located, ?_⟩
  rw [(storeByHandle_spec h addr value).1, target]
  rw [b.memory.byte_write_eq (l := ⟨loc, [value]⟩) fits loc]
  simp [Landing.byte?]

/-! ### Bytes read -/

/-- What a handle reads are the bytes of one region, one after the other. -/
theorem view_eq_ok {m : Memory} {len : Nat} {bytes : Bytes} (read : m.view addr len = .ok bytes) :
    ∃ loc, powerOnRead.locate addr = .ok loc ∧ loc.offset + len ≤ loc.region.size ∧
      bytes = (List.range len).map fun i => m.byte ⟨loc.region, loc.offset + i⟩ := by
  rw [Memory.view, Memory.readVia_eq] at read
  cases found : powerOnRead.resolveRange addr len with
  | error e =>
    rw [found] at read
    cases read
  | ok range =>
    obtain ⟨located, fits, rfl⟩ := resolveRange_eq_ok_iff.1 found
    rw [found] at read
    have content : m.read? range.region range.offset range.len =
        some ((List.range range.len).map fun i => m.byte ⟨range.region, range.offset + i⟩) :=
      Backing.read?_eq_some_iff.2 ⟨fits, rfl⟩
    simp only [Except.map, content, Option.getD_some, Except.ok.injEq] at read
    exact ⟨_, located, fits, read.symm⟩

/-- The bus loads each byte that a handle reads. -/
theorem load_of_view (plain : b.registers = .plain) {len : Nat} {bytes : Bytes}
    (read : b.memory.view addr len = .ok bytes) {i : Nat} {v : UInt8} (at' : bytes[i]? = some v) :
    (b.load (addr + UInt32.ofNat i) .byte).1 = v.toUInt32 := by
  obtain ⟨loc, located, fits, rfl⟩ := view_eq_ok read
  obtain ⟨early, rfl⟩ := List.getElem?_eq_some_iff.1 at'
  rw [List.length_map, List.length_range] at early
  have fits' : Memory.Fits ⟨loc.region, loc.offset + i⟩ Width.byte.bytes := by
    simp only [Memory.Fits, Width.bytes]
    omega
  rw [load_of_place plain (place?_add located fits') fits', List.getElem_map, List.getElem_range]
  exact Bytes.ofLE_byte _

end Bus

namespace Machine

variable {m : Machine} {specs : List HookSpec}

/-- A byte stored through a handle leaves storage, hooks and channel as a byte stored on the bus. -/
theorem next_handleWrite_eq (hm : m.Serves specs) (backed : classify addr ≠ .hardwareRegister)
    (value : UInt8) :
    (m.next (.handleWrite addr value)).bus.memory =
        (m.next (.store .byte addr value.toUInt32)).bus.memory ∧
      (m.next (.handleWrite addr value)).registry =
        (m.next (.store .byte addr value.toUInt32)).registry ∧
      (m.next (.handleWrite addr value)).notifier =
        (m.next (.store .byte addr value.toUInt32)).notifier := by
  have narrow : Width.byte.narrow value.toUInt32 = value.toUInt32 := by
    refine Width.narrow_of_lt ?_
    rw [UInt8.toNat_toUInt32]
    exact value.toNat_lt
  have memory : (m.next (.handleWrite addr value)).bus.memory =
      (m.next (.store .byte addr value.toUInt32)).bus.memory := by
    rw [next_handleWrite, next_store, bus_hear, bus_hear, narrow, Bus.memory_store backed,
      (Bus.storeByHandle_spec hm.isolation addr value).1]
    rw [Width.bytes, Bytes.toLE_byte]
  obtain ⟨moved, reported⟩ := next_spec hm (.handleWrite addr value)
  obtain ⟨moved', reported'⟩ := next_spec hm (.store .byte addr value.toUInt32)
  -- to the hooks both are one stimulus, with the same bytes after it
  have same : m.stimulus (.handleWrite addr value) =
      m.stimulus (.store .byte addr value.toUInt32) := rfl
  refine ⟨memory, ?_, ?_⟩
  · rw [moved, moved', memory, same]
  · rw [reported, reported', events, events, memory, same]

/-- A handle agrees with the bus. After any run from power-on, and at any address that is no register,
a byte stored through a handle leaves the same storage, hooks, snapshots and messages as a byte
stored on the bus. The handle refuses it as unmapped where the address is neither in the scratchpad
nor on a page of the power-on table, and takes it everywhere else; what it takes is there afterwards,
unless the address is in a RAM window while the cache is isolated. With plain registers the bus loads
each byte that a handle reads. -/
theorem handle_agrees_after_run (fresh : m.Fresh specs) (run : List Command) :
    (∀ addr value, classify addr ≠ .hardwareRegister →
        (((m.after run).next (.handleWrite addr value)).bus.memory =
            ((m.after run).next (.store .byte addr value.toUInt32)).bus.memory ∧
          ((m.after run).next (.handleWrite addr value)).registry =
            ((m.after run).next (.store .byte addr value.toUInt32)).registry ∧
          ((m.after run).next (.handleWrite addr value)).notifier =
            ((m.after run).next (.store .byte addr value.toUInt32)).notifier) ∧
        ((m.after run).storeByHandle addr value).1 =
          (if Unserved addr then .error (.unmapped addr) else .ok ()) ∧
        (((m.after run).storeByHandle addr value).1 = .ok () →
          ¬ (InRamWindow addr ∧ (m.after run).bus.isolation.active = true) →
          ∃ loc, powerOnWrite.locate addr = .ok loc ∧
            ((m.after run).next (.handleWrite addr value)).bus.memory.byte loc = value)) ∧
      (m.bus.registers = .plain → ∀ addr len bytes,
        (m.after run).bus.memory.view addr len = .ok bytes →
          bytes.length = len ∧ ∀ i v, bytes[i]? = some v →
            ((m.after run).load (addr + UInt32.ofNat i) .byte).1 = v.toUInt32) := by
  have hm := fresh.serves.after run
  refine ⟨?_, ?_⟩
  · -- a byte stored
    intro addr value backed
    have outcome : ((m.after run).storeByHandle addr value).1 =
        if Unserved addr then .error (.unmapped addr) else .ok () :=
      Bus.outcome_storeByHandle _ backed value
    refine ⟨next_handleWrite_eq hm backed value, outcome, ?_⟩
    intro taken clear
    have served : ¬ Unserved addr := by
      intro unserved
      rw [outcome, if_pos unserved] at taken
      cases taken
    rw [next_handleWrite, bus_hear]
    exact Bus.byte_storeByHandle hm.isolation backed served clear value
  · -- bytes read
    intro plain addr len bytes read
    have plain' : (m.after run).bus.registers = .plain := by rw [registers_after, plain]
    obtain ⟨loc, -, -, content⟩ := Bus.view_eq_ok read
    refine ⟨by simp [content], ?_⟩
    intro i v at'
    exact Bus.load_of_view plain' read at'

/-- A byte that a handle stores in the last copy of RAM in the cached window is found there, and the
bus loads the third of four bytes that a handle reads from there on. -/
theorem handle_byte_stored :
    let m : Machine := {}
    let addr : Address := 0x80600005
    m.Fresh [] ∧ classify addr ≠ .hardwareRegister ∧ (m.storeByHandle addr 0x2a).1 = .ok () ∧
      ¬ (InRamWindow addr ∧ m.bus.isolation.active = true) ∧
      (∃ loc, powerOnWrite.locate addr = .ok loc ∧
        (m.next (.handleWrite addr 0x2a)).bus.memory.byte loc = 0x2a) ∧
      m.bus.registers = .plain ∧ ∃ bytes v, m.bus.memory.view addr 4 = .ok bytes ∧
        bytes[2]? = some v ∧ (m.load (addr + UInt32.ofNat 2) .byte).1 = v.toUInt32 := by
  intro m addr
  have fresh : m.Fresh [] := ⟨rfl, rfl⟩
  have backed : classify addr ≠ .hardwareRegister := by decide
  have served : ¬ Unserved addr := by decide
  have clear : ¬ (InRamWindow addr ∧ m.bus.isolation.active = true) := by decide
  obtain ⟨stores, reads⟩ := handle_agrees_after_run fresh []
  obtain ⟨-, outcome, stored⟩ := stores addr 0x2a backed
  have taken : (m.storeByHandle addr 0x2a).1 = .ok () := outcome.trans (if_neg served)
  have place : powerOnRead.resolveRange addr 4 = .ok ⟨.ram, 5, 4⟩ := by decide
  obtain ⟨bytes, read⟩ : ∃ bytes, m.bus.memory.view addr 4 = .ok bytes :=
    ⟨_, by rw [Memory.view, Memory.readVia_eq, place, Except.map]⟩
  obtain ⟨length, loads⟩ := reads rfl addr 4 bytes read
  have third : bytes[2]? = some bytes[2] := List.getElem?_eq_getElem _
  exact ⟨fresh, backed, taken, clear, stored taken clear, rfl, bytes, _, read, third,
    loads 2 _ third⟩

/-- The second copy of the scratchpad is on no page of the power-on table, and a handle still takes
what is stored there. -/
theorem scratchpad_copy_off_table :
    classify 0x9f800000 = .scratchpad 0 ∧ powerOnWrite.resolve 0x9f800000 = none ∧
      (({} : Machine).storeByHandle 0x9f800000 1).1 = .ok () := by
  exact ⟨by decide, by decide, rfl⟩

end Machine

end ConsoleBus
