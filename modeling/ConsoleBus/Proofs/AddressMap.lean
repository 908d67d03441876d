import ConsoleBus.Memory.Map

/-!
The power-on tables read off address by address. A region is seen through a few windows, its views,
and every located address is an offset in one of them (`locate_powerOnRead_iff`). Each region also
has a home among the canonical addresses, and the homes do not meet, so the canonical form of a
located address tells its place (`canonical_of_locate`). Everything the write table maps the read
table maps to the same place.
-/

namespace ConsoleBus

/-! ### Homes and views of the regions -/

/-- The canonical address of a region's first byte. -/
def Region.home : Region → Nat
  | ram => 0
  | parallel => 0x1f000000
  | hardware => 0x1f800000
  | bios => 0x1fc00000

/-- The part of a region that addresses reach: of the hardware window only the scratchpad, since the
registers behind it answer for themselves. -/
def Region.visibleSize : Region → Nat
  | hardware => scratchpadSize
  | r => r.size

/-- The first addresses of the windows through which a region is read. -/
def Region.views : Region → List Nat
  | ram => ramPages.flatMap fun first =>
      (List.range 4).map fun copy => first * pageSize + copy * ram.size
  | parallel => [PageTable.parallelPage * pageSize]
  | hardware => hardwarePages.map (· * pageSize)
  | bios => PageTable.biosPages.map (· * pageSize)

theorem Region.visibleSize_le (r : Region) : r.visibleSize ≤ r.size := by
  cases r <;> simp [visibleSize, size, scratchpadSize]

/-- Two regions are apart in the canonical address space. -/
theorem Region.home_apart {r s : Region} (h : r ≠ s) :
    r.home + r.size ≤ s.home ∨ s.home + s.size ≤ r.home := by
  cases r <;> cases s <;> simp only [home, size] <;> first | omega | exact absurd rfl h

/-- A canonical address belongs to one region at most. -/
theorem Region.eq_of_home {r s : Region} {i j : Nat} (hi : i < r.size) (hj : j < s.size)
    (h : r.home + i = s.home + j) : r = s ∧ i = j := by
  by_cases hrs : r = s
  · subst hrs
    exact ⟨rfl, by omega⟩
  · rcases Region.home_apart hrs with before | after
    · omega
    · omega

/-- Below the end of the RAM window an address folds onto the first copy, above it stays. -/
theorem canonical_cases (addr : Address) :
    (addr.toNat % 0x20000000 < 0x800000 ∧
        (canonical addr).toNat = addr.toNat % 0x20000000 % 0x200000) ∨
      (0x800000 ≤ addr.toNat % 0x20000000 ∧
        (canonical addr).toNat = addr.toNat % 0x20000000) := by
  rw [toNat_canonical]
  simp only [ramWindow, Region.size]
  by_cases low : addr.toNat % 0x20000000 < 0x800000
  · exact .inl ⟨low, if_pos low⟩
  · exact .inr ⟨Nat.le_of_not_lt low, if_neg low⟩

namespace PageTable

/-! ### The tables at power-on -/

theorem isRamPage_iff {p : Nat} : isRamPage p = true ↔
    p < 0x80 ∨ (0x8000 ≤ p ∧ p < 0x8080) ∨ (0xa000 ≤ p ∧ p < 0xa080) := by
  simp only [isRamPage, List.any_eq_true, Bool.and_eq_true, decide_eq_true_eq]
  simp [ramPages, ramPageCount]

theorem isBiosPage_iff {p : Nat} : isBiosPage p = true ↔
    (0x1fc0 ≤ p ∧ p < 0x1fc8) ∨ (0x9fc0 ≤ p ∧ p < 0x9fc8) ∨ (0xbfc0 ≤ p ∧ p < 0xbfc8) := by
  simp only [isBiosPage, List.any_eq_true, Bool.and_eq_true, decide_eq_true_eq]
  simp [biosPages, biosPageCount]

/-- A page of the power-on write table is a RAM page, the parallel port or the hardware window. -/
theorem entry_powerOnWrite_eq_some_iff {p : Nat} {e : PageEntry} :
    powerOnWrite.entry p = some e ↔
      (isRamPage p = true ∧ e = ramEntry p) ∨ (p = parallelPage ∧ e = ⟨.parallel, 0⟩) ∨
        (p = 0x1f80 ∧ e = ⟨.hardware, 0⟩) := by
  have apart (h : isRamPage p = true) : p ≠ parallelPage ∧ p ≠ 0x1f80 := by
    rw [isRamPage_iff] at h
    simp only [parallelPage]
    omega
  simp only [powerOnWrite, installWindows, entry_set, entry_installRam, entry_empty]
  by_cases hw : p = 0x1f80
  · subst hw
    simp [isRamPage, ramPages, ramPageCount, parallelPage, eq_comm]
  · by_cases hp : p = parallelPage
    · subst hp
      simp [isRamPage, ramPages, ramPageCount, parallelPage, eq_comm]
    · by_cases hr : isRamPage p = true <;> simp [hw, hp, hr, eq_comm]

theorem isRamPage_iff_of_entry {p : Nat} {e : PageEntry} (h : powerOnWrite.entry p = some e) :
    isRamPage p = true ↔ e.region = .ram := by
  rcases entry_powerOnWrite_eq_some_iff.1 h with ⟨hp, rfl⟩ | ⟨rfl, rfl⟩ | ⟨rfl, rfl⟩
  · exact ⟨fun _ => rfl, fun _ => hp⟩
  · simp [isRamPage_iff, parallelPage]
  · simp [isRamPage_iff]

/-- The power-on read table adds the ROM pages. -/
theorem entry_powerOnRead_eq_some_iff {p : Nat} {e : PageEntry} :
    powerOnRead.entry p = some e ↔
      (isBiosPage p = true ∧ e = biosEntry p) ∨ powerOnWrite.entry p = some e := by
  rw [powerOnRead, entry_installBios]
  by_cases hb : isBiosPage p = true
  · have unwritten : ¬ powerOnWrite.entry p = some e := by
      rw [entry_powerOnWrite_eq_some_iff, isRamPage_iff]
      rw [isBiosPage_iff] at hb
      simp only [parallelPage]
      omega
    simp [hb, unwritten, eq_comm]
  · simp [hb]

/-- What can be written can be read in the same place. -/
theorem entry_powerOnRead_of_write {p : Nat} {e : PageEntry} (h : powerOnWrite.entry p = some e) :
    powerOnRead.entry p = some e :=
  entry_powerOnRead_eq_some_iff.2 (.inr h)

/-! ### Located addresses -/

variable {t : PageTable} {addr : Address} {loc : Location}

theorem classify_eq_scratchpad_iff {offset : Nat} : classify addr = .scratchpad offset ↔
    pageOf addr ∈ hardwarePages ∧ pageOffset addr < scratchpadSize ∧ pageOffset addr = offset := by
  unfold classify
  by_cases hp : pageOf addr ∈ hardwarePages
  · by_cases hs : pageOffset addr < scratchpadSize <;> simp [hp, hs]
  · simp [hp]

theorem classify_eq_table_iff : classify addr = .table ↔ pageOf addr ∉ hardwarePages := by
  unfold classify
  by_cases hp : pageOf addr ∈ hardwarePages
  · by_cases hs : pageOffset addr < scratchpadSize <;> simp [hp, hs]
  · simp [hp]

theorem classify_eq_hardwareRegister_iff : classify addr = .hardwareRegister ↔
    pageOf addr ∈ hardwarePages ∧ scratchpadSize ≤ pageOffset addr := by
  unfold classify
  by_cases hp : pageOf addr ∈ hardwarePages
  · by_cases hs : pageOffset addr < scratchpadSize
    · simp [hp, hs]
    · simp [hp, hs, Nat.le_of_not_lt hs]
  · simp [hp]

/-- An address is located through the scratchpad or through its page. -/
theorem locate_eq_ok_iff : t.locate addr = .ok loc ↔
    classify addr = .scratchpad loc.offset ∧ loc.region = .hardware ∨
      classify addr = .table ∧ t.resolve addr = some loc := by
  obtain ⟨r, o⟩ := loc
  unfold locate
  cases hc : classify addr with
  | scratchpad offset => simp [eq_comm, and_comm]
  | hardwareRegister => simp
  | table => cases ht : t.resolve addr <;> simp

theorem resolve_eq_some_iff : t.resolve addr = some loc ↔
    ∃ e, t.entry (pageOf addr) = some e ∧ loc.region = e.region ∧
      loc.offset = (e.base + pageOffset addr) % 0x100000000 := by
  obtain ⟨r, o⟩ := loc
  unfold resolve
  cases t.entry (pageOf addr) <;> simp [eq_comm]

theorem locate_powerOnRead_of_write (h : powerOnWrite.locate addr = .ok loc) :
    powerOnRead.locate addr = .ok loc := by
  rw [locate_eq_ok_iff] at h ⊢
  rcases h with h | ⟨hc, h⟩
  · exact .inl h
  · obtain ⟨e, he, hr, ho⟩ := resolve_eq_some_iff.1 h
    exact .inr ⟨hc, resolve_eq_some_iff.2 ⟨e, entry_powerOnRead_of_write he, hr, ho⟩⟩

/-- The addresses of a place are its offset in each view of its region. -/
theorem locate_powerOnRead_iff : powerOnRead.locate addr = .ok loc ↔
    loc.offset < loc.region.visibleSize ∧
      ∃ base ∈ loc.region.views, addr.toNat = base + loc.offset := by
  have ha : addr.toNat < 4294967296 := addr.toNat_lt
  obtain ⟨r, o⟩ := loc
  rw [locate_eq_ok_iff, classify_eq_scratchpad_iff, classify_eq_table_iff, resolve_eq_some_iff]
  simp only [entry_powerOnRead_eq_some_iff, entry_powerOnWrite_eq_some_iff, isBiosPage_iff,
    isRamPage_iff]
  constructor
  · rintro (⟨⟨hp, hs, ho⟩, rfl⟩ | ⟨hc, e, he, rfl, rfl⟩)
    · subst ho
      exact ⟨hs, _, List.mem_map_of_mem hp, (Nat.div_add_mod' _ _).symm⟩
    · simp only [hardwarePages, List.mem_cons, List.not_mem_nil, or_false] at hc
      rcases he with ⟨hp, rfl⟩ | ⟨hp, rfl⟩ | ⟨hp, rfl⟩ | ⟨hp, rfl⟩
      · simp only [Region.visibleSize, Region.views, biosEntry, biosPages, pageOf, pageOffset,
          pageSize, Region.size, List.map_cons, List.map_nil, List.mem_cons, List.not_mem_nil,
          or_false, exists_eq_or_imp, exists_eq_left] at hp ⊢
        omega
      · simp [Region.visibleSize, Region.views, ramEntry, ramPages, pageOf, pageOffset, pageSize,
          Region.size, List.range_succ] at hp ⊢
        omega
      · simp [Region.visibleSize, Region.views, parallelPage, pageOf, pageOffset, pageSize,
          Region.size] at hp ⊢
        omega
      · exact absurd (.inl hp) hc
  · rintro ⟨fits, base, hbase, haddr⟩
    cases r with
    | ram =>
      simp only [Region.views, List.mem_flatMap, List.mem_map, List.mem_range] at hbase
      obtain ⟨first, hf, copy, hcopy, rfl⟩ := hbase
      refine .inr ⟨?_, ramEntry (pageOf addr), .inr (.inl ⟨?_, rfl⟩), rfl, ?_⟩ <;>
        simp only [ramPages, hardwarePages, ramEntry, pageOf, pageOffset, pageSize,
          Region.visibleSize, Region.size, List.mem_cons, List.not_mem_nil, or_false]
          at hf fits haddr ⊢ <;>
        omega
    | parallel =>
      simp only [Region.views, List.mem_singleton] at hbase
      subst hbase
      refine .inr ⟨?_, _, .inr (.inr (.inl ⟨?_, rfl⟩)), rfl, ?_⟩ <;>
        simp only [hardwarePages, parallelPage, pageOf, pageOffset, pageSize, Region.visibleSize,
          Region.size, List.mem_cons, List.not_mem_nil, or_false] at fits haddr ⊢ <;>
        omega
    | hardware =>
      simp only [Region.views, List.mem_map] at hbase
      obtain ⟨page, hp, rfl⟩ := hbase
      have here : pageOf addr = page ∧ pageOffset addr = o := by
        simp only [Region.visibleSize, scratchpadSize] at fits
        simp only [pageOf, pageOffset, pageSize] at haddr ⊢
        omega
      exact .inl ⟨⟨here.1 ▸ hp, here.2 ▸ fits, here.2⟩, rfl⟩
    | bios =>
      simp only [Region.views, List.mem_map] at hbase
      obtain ⟨first, hf, rfl⟩ := hbase
      refine .inr ⟨?_, biosEntry (pageOf addr), .inl ⟨?_, rfl⟩, rfl, ?_⟩ <;>
        simp only [biosPages, hardwarePages, biosEntry, pageOf, pageOffset, pageSize,
          Region.visibleSize, Region.size, List.mem_cons, List.not_mem_nil, or_false]
          at hf fits haddr ⊢ <;>
        omega

/-- A view begins at an address that folds onto the region's home. -/
theorem canonical_view {r : Region} {base : Nat} (h : base ∈ r.views) {o : Nat} (ho : o < r.size)
    (haddr : addr.toNat = base + o) : (canonical addr).toNat = r.home + o := by
  have hfold := canonical_cases addr
  cases r <;>
    simp [Region.views, ramPages, biosPages, hardwarePages, parallelPage, pageSize, Region.size,
      Region.home, List.range_succ] at h ho ⊢ <;>
    omega

/-- A located address lies in its region, and its canonical form is the place's own. -/
theorem canonical_of_locate (h : powerOnRead.locate addr = .ok loc) :
    (canonical addr).toNat = loc.region.home + loc.offset ∧ loc.offset < loc.region.size := by
  obtain ⟨fits, base, hbase, haddr⟩ := locate_powerOnRead_iff.1 h
  have hsize := Nat.lt_of_lt_of_le fits loc.region.visibleSize_le
  exact ⟨canonical_view hbase hsize haddr, hsize⟩

/-- Every region has a view at its home. -/
theorem home_mem_views (r : Region) : r.home ∈ r.views := by
  cases r <;> decide

/-- A canonical address is located where it is a visible part of a region at its home. -/
theorem locate_canonical_iff : powerOnRead.locate (canonical addr) = .ok loc ↔
    (canonical addr).toNat = loc.region.home + loc.offset ∧
      loc.offset < loc.region.visibleSize := by
  constructor
  · intro h
    have home := (canonical_of_locate h).1
    have hfold := canonical_cases addr
    have hfold' := canonical_cases (canonical addr)
    exact ⟨by omega, (locate_powerOnRead_iff.1 h).1⟩
  · rintro ⟨home, fits⟩
    exact locate_powerOnRead_iff.2 ⟨fits, _, home_mem_views _, home⟩

theorem resolveRange_eq_ok_iff {len : Nat} {range : Range} : t.resolveRange addr len = .ok range ↔
    t.locate addr = .ok ⟨range.region, range.offset⟩ ∧
      range.offset + range.len ≤ range.region.size ∧ range.len = len := by
  obtain ⟨r, o, n⟩ := range
  unfold resolveRange
  cases h : t.locate addr with
  | error e => simp
  | ok loc =>
    obtain ⟨r', o'⟩ := loc
    by_cases fits : o' + len ≤ r'.size
    · simp only [fits, if_true, Except.ok.injEq, Range.mk.injEq, Location.mk.injEq]
      constructor
      · rintro ⟨rfl, rfl, rfl⟩
        exact ⟨⟨rfl, rfl⟩, fits, rfl⟩
      · rintro ⟨⟨rfl, rfl⟩, -, rfl⟩
        exact ⟨rfl, rfl, rfl⟩
    · simp only [fits, if_false, reduceCtorEq, false_iff, Except.ok.injEq, Location.mk.injEq]
      rintro ⟨⟨rfl, rfl⟩, fits', rfl⟩
      exact fits fits'

end PageTable

end ConsoleBus
