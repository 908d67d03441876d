import ConsoleBus.Proofs.Dispatch
import ConsoleBus.Proofs.HandleAccess

/-!
Ranges against their bytes. A table looks up the first address of a range and measures the rest
against the region. For RAM, the parallel port and the ROM this comes to asking for every address by
itself, because a window shows a region from its first byte to its last. The scratchpad is shorter
than the region that it is kept in, so a range that starts there may be served although it ends
among the hardware registers (`LeavesScratchpad`); there is no other difference
(`resolveRange_bytewise_iff`).
-/

namespace ConsoleBus

namespace PageTable

variable {t : PageTable} {addr : Address} {loc : Location} {range : Range} {i len : Nat}

/-- One of the two tables at power-on. -/
def Standard (t : PageTable) : Prop := t = powerOnRead ∨ t = powerOnWrite

/-- Every address of the range is there and is served by itself, in a row from the first byte on. -/
def ServedInTurn (t : PageTable) (addr : Address) (range : Range) : Prop :=
  ∀ i < range.len, addr.toNat + i < UInt32.size ∧
    t.resolveRange (addr + UInt32.ofNat i) 1 = .ok ⟨range.region, range.offset + i, 1⟩

/-- Some address of the range is a hardware register. -/
def HasRegister (addr : Address) (len : Nat) : Prop :=
  ∃ i < len, classify (addr + UInt32.ofNat i) = .hardwareRegister

/-- Some address of the range is not mapped. -/
def HasUnmapped (t : PageTable) (addr : Address) (len : Nat) : Prop :=
  ∃ i < len, ∃ a, t.locate (addr + UInt32.ofNat i) = .error (.unmapped a)

/-- The range starts in the scratchpad and ends among the hardware registers behind it. -/
def LeavesScratchpad (addr : Address) (len : Nat) : Prop :=
  ∃ offset, classify addr = .scratchpad offset ∧ scratchpadSize < offset + len ∧
    offset + len ≤ Region.hardware.size

/-- Every address of the range is mapped, and the hardware registers among them are those behind the
scratchpad that the range starts in. -/
def KeepsToMemory (t : PageTable) (addr : Address) (len : Nat) : Prop :=
  ¬ t.HasUnmapped addr len ∧ (HasRegister addr len ↔ LeavesScratchpad addr len)

/-! ### What follows a located address -/

/-- The ROM can be read, and everything else that can be read can be written. -/
theorem locate_powerOnWrite_iff : powerOnWrite.locate addr = .ok loc ↔
    powerOnRead.locate addr = .ok loc ∧ loc.region ≠ .bios := by
  constructor
  · intro located
    refine ⟨locate_powerOnRead_of_write located, ?_⟩
    rcases locate_eq_ok_iff.1 located with ⟨-, pad⟩ | ⟨-, resolved⟩
    · rw [pad]
      decide
    · obtain ⟨e, he, hr, -⟩ := resolve_eq_some_iff.1 resolved
      rw [hr]
      rcases entry_powerOnWrite_eq_some_iff.1 he with ⟨-, rfl⟩ | ⟨-, rfl⟩ | ⟨-, rfl⟩ <;>
        simp [ramEntry]
  · rintro ⟨located, writable⟩
    rcases locate_eq_ok_iff.1 located with pad | ⟨table, resolved⟩
    · exact locate_eq_ok_iff.2 (.inl pad)
    · obtain ⟨e, he, hr, ho⟩ := resolve_eq_some_iff.1 resolved
      rcases entry_powerOnRead_eq_some_iff.1 he with ⟨-, rfl⟩ | he
      · exact absurd hr writable
      · exact locate_eq_ok_iff.2 (.inr ⟨table, resolve_eq_some_iff.2 ⟨e, he, hr, ho⟩⟩)

/-- Both tables agree on what they locate, up to the ROM. -/
theorem Standard.locate_iff (standard : t.Standard) (located : t.locate addr = .ok loc)
    {addr' : Address} {offset : Nat} :
    t.locate addr' = .ok ⟨loc.region, offset⟩ ↔
      powerOnRead.locate addr' = .ok ⟨loc.region, offset⟩ := by
  rcases standard with rfl | rfl
  · rfl
  · rw [locate_powerOnWrite_iff, and_iff_left (locate_powerOnWrite_iff.1 located).2]

/-- A located address is located for reading. -/
theorem Standard.locate_read (standard : t.Standard) (located : t.locate addr = .ok loc) :
    powerOnRead.locate addr = .ok loc :=
  (standard.locate_iff located).1 located

/-- The addresses after a located one go on through the visible part of its region. -/
theorem Standard.locate_add (standard : t.Standard) (located : t.locate addr = .ok loc)
    (visible : loc.offset + i < loc.region.visibleSize) :
    t.locate (addr + UInt32.ofNat i) = .ok ⟨loc.region, loc.offset + i⟩ := by
  have readable := standard.locate_read located
  obtain ⟨-, base, hbase, haddr⟩ := locate_powerOnRead_iff.1 readable
  have next := (toNat_add_of_locate readable
    (Nat.lt_of_lt_of_le visible loc.region.visibleSize_le)).1
  refine (standard.locate_iff located).2 (locate_powerOnRead_iff.2 ⟨visible, base, hbase, ?_⟩)
  simp only
  omega

/-- Those that follow in its region and are not visible are hardware registers. -/
theorem classify_add_iff (readable : powerOnRead.locate addr = .ok loc)
    (inside : loc.offset + i < loc.region.size) :
    classify (addr + UInt32.ofNat i) = .hardwareRegister ↔
      loc.region.visibleSize ≤ loc.offset + i := by
  constructor
  · intro register
    by_contra visible
    have here := Standard.locate_add (.inl rfl) readable (Nat.lt_of_not_le visible)
    rw [locate, register] at here
    cases here
  · intro hidden
    -- the bus finds the byte there, and it is not through the table that it does
    have place := place?_add readable inside
    by_contra backed
    rw [place?_of_not_register backed] at place
    cases found : powerOnRead.locate (addr + UInt32.ofNat i) with
    | error e =>
      rw [found] at place
      cases place
    | ok loc' =>
      rw [found] at place
      cases place
      exact Nat.not_lt_of_le hidden (locate_powerOnRead_iff.1 found).1

/-! ### Accepted ranges -/

/-- A range that is accepted starts in the scratchpad and leaves it just where it goes on past the
visible part of its region. -/
theorem leavesScratchpad_iff (readable : powerOnRead.locate addr = .ok loc)
    (fits : loc.offset + len ≤ loc.region.size) :
    LeavesScratchpad addr len ↔ loc.region.visibleSize < loc.offset + len := by
  constructor
  · rintro ⟨offset, pad, past, -⟩
    rw [locate, pad] at readable
    cases readable
    exact past
  · intro past
    obtain ⟨visible, base, hbase, haddr⟩ := locate_powerOnRead_iff.1 readable
    obtain ⟨r, o⟩ := loc
    cases r with
    | hardware =>
      obtain ⟨page, hp, rfl⟩ := List.mem_map.1 hbase
      simp only [Region.visibleSize, scratchpadSize] at visible past
      have here : pageOf addr = page ∧ pageOffset addr = o := by
        simp only [pageOf, pageOffset, pageSize] at haddr ⊢
        omega
      refine ⟨o, classify_eq_scratchpad_iff.2 ⟨here.1 ▸ hp, ?_, here.2⟩, past, fits⟩
      rw [here.2]
      exact visible
    | _ => exact absurd fits (Nat.not_le_of_lt past)

/-- An accepted range keeps to memory. -/
theorem Standard.keepsToMemory (standard : t.Standard)
    (accepted : t.resolveRange addr len = .ok range) : t.KeepsToMemory addr len := by
  obtain ⟨located, fits, rfl⟩ := resolveRange_eq_ok_iff.1 accepted
  have readable := standard.locate_read located
  have visible := (locate_powerOnRead_iff.1 readable).1
  have register {i : Nat} (hi : i < range.len) := classify_add_iff readable (i := i)
    (Nat.lt_of_lt_of_le (Nat.add_lt_add_left hi range.offset) fits)
  refine ⟨?_, ?_⟩
  · rintro ⟨i, hi, a, lost⟩
    by_cases here : range.offset + i < range.region.visibleSize
    · rw [standard.locate_add located here] at lost
      cases lost
    · rw [locate, (register hi).2 (Nat.le_of_not_lt here)] at lost
      cases lost
  · rw [leavesScratchpad_iff readable fits]
    constructor
    · rintro ⟨i, hi, found⟩
      have hidden := (register hi).1 found
      simp only at hidden ⊢
      omega
    · intro past
      simp only at visible past
      have hi : range.region.visibleSize - range.offset < range.len := by omega
      exact ⟨_, hi, (register hi).2 (by simp only; omega)⟩

/-- An accepted range is served in turn just if there is no hardware register in it. -/
theorem Standard.servedInTurn_iff (standard : t.Standard)
    (accepted : t.resolveRange addr len = .ok range) :
    t.ServedInTurn addr range ↔ ¬ HasRegister addr len := by
  obtain ⟨located, fits, rfl⟩ := resolveRange_eq_ok_iff.1 accepted
  have readable := standard.locate_read located
  constructor
  · rintro served ⟨i, hi, register⟩
    have here := (resolveRange_eq_ok_iff.1 (served i hi).2).1
    rw [locate, register] at here
    cases here
  · intro backed i hi
    have inside : range.offset + i < range.region.size := by omega
    have visible : range.offset + i < range.region.visibleSize := by
      by_contra hidden
      exact backed ⟨i, hi, (classify_add_iff readable inside).2 (Nat.le_of_not_lt hidden)⟩
    exact ⟨(toNat_add_of_locate readable inside).2,
      resolveRange_eq_ok_iff.2 ⟨standard.locate_add located visible, inside, rfl⟩⟩

/-- What is served in turn is accepted: its first address has the place, and its last one shows that
the range fits. -/
theorem resolveRange_of_servedInTurn (pos : 0 < range.len) (served : t.ServedInTurn addr range) :
    t.resolveRange addr range.len = .ok range := by
  obtain ⟨first, -, -⟩ := resolveRange_eq_ok_iff.1 (served 0 pos).2
  obtain ⟨-, last, -⟩ := resolveRange_eq_ok_iff.1 (served (range.len - 1) (by omega)).2
  simp only at last
  refine resolveRange_eq_ok_iff.2 ⟨?_, by omega, rfl⟩
  simpa using first

end PageTable

/-! ### Queries, dumps and hooks -/

open PageTable

/-- A query that is carried out has an accepted range. -/
theorem Plane.range_of_query {p : Plane} {start : Address} {len : UInt32} {key : UInt8}
    {s : Option Status} (done : (p.handle (.queryMemory start len key)).answer = .ok s) :
    ∃ range, powerOnRead.resolveRange start len.toNat = .ok range := by
  cases found : powerOnRead.resolveRange start len.toNat with
  | ok range => exact ⟨range, rfl⟩
  | error e =>
    have unread : p.machine.bus.memory.view start len.toNat = .error e := by
      rw [Memory.view, Memory.readVia_eq, found]
      rfl
    simp only [handle, copyToSegment, QueryBuffer.checkLength] at done
    split at done
    · cases done
    · next short =>
      split at short
      · cases short
        simp [unread] at done
      · cases short

/-- A dump that is carried out has an accepted range. -/
theorem Plane.range_of_dump {p : Plane} {start : Address} {len : UInt32} {path : Path}
    {s : Option Status} (done : (p.handle (.dumpMemory start len path)).answer = .ok s) :
    ∃ range, powerOnRead.resolveRange start len.toNat = .ok range := by
  cases found : powerOnRead.resolveRange start len.toNat with
  | ok range => exact ⟨range, rfl⟩
  | error e => simp [handle, dump, Memory.block, Memory.blockVia, found] at done

/-- The hooks of an accepted list have accepted ranges. -/
theorem Registry.range_of_hook {specs : List HookSpec} {r : Registry}
    (accepted : ofSpecs specs = .ok r) {h : Hook} (listed : h ∈ r.hooks) :
    ∃ range, powerOnRead.resolveRange h.start h.length.toNat = .ok range := by
  obtain ⟨range, sited⟩ := (serves_of_ofSpecs accepted).sited listed
  exact ⟨range, sited.resolved⟩

namespace PageTable

/-- A range is accepted just where its addresses are served in turn, unless it starts in the
scratchpad and ends among the hardware registers: such a range is accepted and not served in turn.
No other accepted range has a hardware register in it, and none has an unmapped address, be it asked
for by a query or a dump or watched by a hook. -/
theorem resolveRange_bytewise_iff {t : PageTable} (standard : t.Standard) (addr : Address)
    {len : Nat} (pos : 0 < len) :
    ((∀ region offset, t.resolveRange addr len = .ok ⟨region, offset, len⟩ ↔
        t.ServedInTurn addr ⟨region, offset, len⟩) ↔ ¬ LeavesScratchpad addr len) ∧
      (∀ range, t.resolveRange addr len = .ok range → t.KeepsToMemory addr len) ∧
      (∀ (p : Plane) (n : UInt32) (key : UInt8) (s : Option Status),
        (p.handle (.queryMemory addr n key)).answer = .ok s →
        powerOnRead.KeepsToMemory addr n.toNat) ∧
      (∀ (p : Plane) (n : UInt32) (path : Path) (s : Option Status),
        (p.handle (.dumpMemory addr n path)).answer = .ok s →
        powerOnRead.KeepsToMemory addr n.toNat) ∧
      (∀ (specs : List HookSpec) (r : Registry), Registry.ofSpecs specs = .ok r →
        ∀ h ∈ r.hooks, powerOnRead.KeepsToMemory h.start h.length.toNat) := by
  have readable : powerOnRead.Standard := .inl rfl
  refine ⟨⟨?_, ?_⟩, ?_, ?_, ?_, ?_⟩
  · -- a range that leaves the scratchpad is accepted, and not served in turn
    rintro same ⟨offset, pad, past, fits⟩
    have located : t.locate addr = .ok ⟨.hardware, offset⟩ := by rw [locate, pad]
    have accepted : t.resolveRange addr len = .ok ⟨.hardware, offset, len⟩ :=
      resolveRange_eq_ok_iff.2 ⟨located, fits, rfl⟩
    have register := (standard.keepsToMemory accepted).2.2 ⟨offset, pad, past, fits⟩
    exact (standard.servedInTurn_iff accepted).1 ((same _ _).1 accepted) register
  · intro stays region offset
    constructor
    · intro accepted
      exact (standard.servedInTurn_iff accepted).2 fun register =>
        stays ((standard.keepsToMemory accepted).2.1 register)
    · exact resolveRange_of_servedInTurn pos
  · intro range accepted
    exact standard.keepsToMemory accepted
  · intro p n key s done
    obtain ⟨range, accepted⟩ := Plane.range_of_query done
    exact readable.keepsToMemory accepted
  · intro p n path s done
    obtain ⟨range, accepted⟩ := Plane.range_of_dump done
    exact readable.keepsToMemory accepted
  · intro specs r registered h listed
    obtain ⟨range, accepted⟩ := Registry.range_of_hook registered listed
    exact readable.keepsToMemory accepted

/-- The last two bytes of the fourth copy of RAM, seen through the cached segment, by the table for
stores. -/
theorem last_mirror_served :
    powerOnWrite.Standard ∧ 0 < 2 ∧ ¬ LeavesScratchpad 0x807ffffe 2 ∧
      powerOnWrite.resolveRange 0x807ffffe 2 = .ok ⟨.ram, 0x1ffffe, 2⟩ ∧
      powerOnWrite.ServedInTurn 0x807ffffe ⟨.ram, 0x1ffffe, 2⟩ ∧
      powerOnWrite.KeepsToMemory 0x807ffffe 2 := by
  have standard : powerOnWrite.Standard := .inr rfl
  have stays : ¬ LeavesScratchpad 0x807ffffe 2 := by
    rintro ⟨offset, pad, -⟩
    cases pad
  have accepted : powerOnWrite.resolveRange 0x807ffffe 2 = .ok ⟨.ram, 0x1ffffe, 2⟩ := by decide
  have pos : 0 < 2 := by decide
  obtain ⟨same, keeps, -⟩ := resolveRange_bytewise_iff standard 0x807ffffe pos
  exact ⟨standard, pos, stays, accepted, (same.2 stays _ _).1 accepted, keeps _ accepted⟩

/-- The last byte of the scratchpad and the first hardware register are accepted as one range,
though there is no range for the register alone. -/
theorem scratchpad_end_accepted :
    powerOnRead.resolveRange 0x1f8003ff 2 = .ok ⟨.hardware, 0x3ff, 2⟩ ∧
      powerOnRead.resolveRange (0x1f8003ff + UInt32.ofNat 1) 1 = .error (.noBacking 0x1f800400) ∧
      ¬ (∀ (addr : Address) (len : Nat), 0 < len → ∀ region offset,
        powerOnRead.resolveRange addr len = .ok ⟨region, offset, len⟩ ↔
          powerOnRead.ServedInTurn addr ⟨region, offset, len⟩) ∧
      HasRegister 0x1f8003ff 2 := by
  have accepted : powerOnRead.resolveRange 0x1f8003ff 2 = .ok ⟨.hardware, 0x3ff, 2⟩ := by decide
  have lost : powerOnRead.resolveRange (0x1f8003ff + UInt32.ofNat 1) 1 =
      .error (.noBacking 0x1f800400) := by decide
  refine ⟨accepted, lost, fun same => ?_, 1, by decide, by decide⟩
  have served := ((same 0x1f8003ff 2 (by decide) _ _).1 accepted 1 (by decide)).2
  rw [lost] at served
  cases served

end PageTable

end ConsoleBus
