import ConsoleBus.Bus
import ConsoleBus.Proofs.AddressMap

/-!
Where stores land. The isolation switch keeps its flag and its write table in step
(`Isolation.Coherent`), so the table alone decides where a store goes, and the bus and a handle
agree on it. A store of bytes that have a place (`Bus.target?`) writes them there and is announced
once; any other store leaves memory alone and is not announced.
-/

namespace ConsoleBus

open PageTable

namespace Isolation

/-! ### The switch -/

/-- The write table is the one of power-on, with the RAM windows blank while the cache is
isolated. -/
def Coherent (s : Isolation) : Prop :=
  ∀ page, s.table.entry page =
    if s.active = true ∧ isRamPage page = true then none else powerOnWrite.entry page

theorem coherent_powerOn : powerOn.Coherent := fun page => by simp [powerOn]

/-- Obeying a control value keeps flag and table in step. -/
theorem coherent_apply {s : Isolation} (h : s.Coherent) (value : UInt32) :
    (s.apply value).1.Coherent := by
  intro page
  have ram (hp : isRamPage page = true) : powerOnWrite.entry page = some (ramEntry page) :=
    entry_powerOnWrite_eq_some_iff.2 (.inl ⟨hp, rfl⟩)
  unfold apply
  by_cases hi : value ∈ isolateValues
  · by_cases ha : s.active = true
    · simpa [hi, ha] using h page
    · by_cases hp : isRamPage page = true <;> simp [hi, ha, hp, h page]
  · by_cases hr : value ∈ restoreValues
    · by_cases ha : s.active = true
      · by_cases hp : isRamPage page = true
        · simp [hi, hr, ha, hp, ram hp]
        · simp [hi, hr, ha, hp, h page]
      · simpa [hi, hr, ha] using h page
    · simpa [hi, hr] using h page

/-- A coherent table locates what the power-on table does, except for RAM while isolated. -/
theorem Coherent.locate_iff {s : Isolation} (h : s.Coherent) {addr : Address} {loc : Location} :
    s.table.locate addr = .ok loc ↔
      powerOnWrite.locate addr = .ok loc ∧ ¬ (s.active = true ∧ loc.region = .ram) := by
  rw [locate_eq_ok_iff, locate_eq_ok_iff]
  constructor
  · rintro (⟨hc, hr⟩ | ⟨hc, ht⟩)
    · exact ⟨.inl ⟨hc, hr⟩, fun ⟨_, ram⟩ => by rw [hr] at ram; cases ram⟩
    · obtain ⟨e, he, hr, ho⟩ := resolve_eq_some_iff.1 ht
      rw [h] at he
      split at he
      · cases he
      · next clear =>
        refine ⟨.inr ⟨hc, resolve_eq_some_iff.2 ⟨e, he, hr, ho⟩⟩, fun ⟨ha, ram⟩ => clear ⟨ha, ?_⟩⟩
        rwa [isRamPage_iff_of_entry he, ← hr]
  · rintro ⟨⟨hc, hr⟩ | ⟨hc, ht⟩, clear⟩
    · exact .inl ⟨hc, hr⟩
    · obtain ⟨e, he, hr, ho⟩ := resolve_eq_some_iff.1 ht
      refine .inr ⟨hc, resolve_eq_some_iff.2 ⟨e, ?_, hr, ho⟩⟩
      rw [h, if_neg, he]
      rintro ⟨ha, hp⟩
      rw [isRamPage_iff_of_entry he, ← hr] at hp
      exact clear ⟨ha, hp⟩

end Isolation

namespace Bus

variable {b : Bus} {addr : Address} {loc : Location}

/-! ### Targets -/

/-- Where `n` bytes stored at an address go, if they reach memory. -/
def target? (b : Bus) (addr : Address) (n : Nat) : Option Location :=
  match b.isolation.table.resolveRange addr n with
  | .ok range => some ⟨range.region, range.offset⟩
  | .error _ => none

theorem target?_eq_some_iff {n : Nat} : b.target? addr n = some loc ↔
    b.isolation.table.locate addr = .ok loc ∧ Memory.Fits loc n := by
  unfold target? resolveRange Memory.Fits
  cases hl : b.isolation.table.locate addr with
  | error e => simp
  | ok found =>
    by_cases fits : found.offset + n ≤ found.region.size
    · simp only [fits, if_true, Option.some.injEq, Except.ok.injEq]
      constructor
      · rintro rfl
        exact ⟨rfl, fits⟩
      · rintro ⟨rfl, -⟩
        rfl
    · simp only [fits, if_false, reduceCtorEq, false_iff, Except.ok.injEq]
      rintro ⟨rfl, fits'⟩
      exact fits fits'

/-- A store to a register goes nowhere in memory. -/
theorem target?_register {n : Nat} (h : classify addr = .hardwareRegister) :
    b.target? addr n = none := by
  simp [target?, resolveRange, locate, h]

/-- A target lies where its address folds to. -/
theorem canonical_of_target (h : b.isolation.Coherent) {n : Nat}
    (ht : b.target? addr n = some loc) :
    (canonical addr).toNat = loc.region.home + loc.offset ∧
      loc.offset + n ≤ loc.region.size := by
  obtain ⟨located, fits⟩ := target?_eq_some_iff.1 ht
  have read := locate_powerOnRead_of_write (h.locate_iff.1 located).1
  exact ⟨(canonical_of_locate read).1, fits⟩

theorem target?_scratchpad {n offset : Nat} (h : classify addr = .scratchpad offset) :
    b.target? addr n =
      if Memory.Fits ⟨.hardware, offset⟩ n then some ⟨.hardware, offset⟩ else none := by
  unfold target? resolveRange Memory.Fits
  by_cases fits : offset + n ≤ Region.hardware.size <;> simp [locate, h, fits]

theorem target?_table {n : Nat} (h : classify addr = .table) :
    b.target? addr n =
      (b.isolation.table.resolve addr).bind fun loc =>
        if Memory.Fits loc n then some loc else none := by
  unfold target? resolveRange Memory.Fits
  cases hr : b.isolation.table.resolve addr with
  | none => simp [locate, h, hr]
  | some loc =>
    by_cases fits : loc.offset + n ≤ loc.region.size <;> simp [locate, h, hr, fits]

theorem target?_unmapped {n : Nat} (hc : classify addr = .table)
    (h : b.isolation.table.resolve addr = none) : b.target? addr n = none := by
  rw [target?_table hc, h]
  rfl

/-- Bytes stored at an address go to this range: the power-on table has it, and isolation does not
keep them from RAM. -/
def Lands (b : Bus) (addr : Address) (n : Nat) (range : Range) : Prop :=
  powerOnWrite.resolveRange addr n = .ok range ∧
    ¬ (b.isolation.active = true ∧ range.region = .ram)

/-- The location is one of those that bytes stored at an address go to. -/
def Writes (b : Bus) (addr : Address) (n : Nat) (loc : Location) : Prop :=
  ∃ range, b.Lands addr n range ∧ Memory.Covers ⟨range.region, range.offset⟩ n loc

/-- The target is where the power-on table and the isolation flag say. -/
theorem lands_iff (h : b.isolation.Coherent) {n : Nat} {range : Range} : b.Lands addr n range ↔
    b.target? addr n = some ⟨range.region, range.offset⟩ ∧ range.len = n := by
  unfold Lands
  rw [target?_eq_some_iff, h.locate_iff, resolveRange_eq_ok_iff, Memory.Fits]
  constructor
  · rintro ⟨⟨located, fits, rfl⟩, clear⟩
    exact ⟨⟨⟨located, clear⟩, fits⟩, rfl⟩
  · rintro ⟨⟨⟨located, clear⟩, fits⟩, rfl⟩
    exact ⟨⟨located, fits, rfl⟩, clear⟩

theorem writes_iff (h : b.isolation.Coherent) {n : Nat} : b.Writes addr n loc ↔
    ∃ target, b.target? addr n = some target ∧ Memory.Covers target n loc := by
  constructor
  · rintro ⟨range, lands, covered⟩
    exact ⟨_, ((lands_iff h).1 lands).1, covered⟩
  · rintro ⟨target, found, covered⟩
    exact ⟨⟨target.region, target.offset, n⟩, (lands_iff h).2 ⟨found, rfl⟩, covered⟩

end Bus

/-! ### What a store does -/

namespace Memory

/-- Bytes that do not fit are not written. -/
theorem write_of_not_fits (m : Memory) {loc : Location} {bytes : Bytes}
    (late : ¬ Fits loc bytes.length) : m.write loc bytes = m := by
  rw [write_eq_getD_write?, write?_eq, if_neg late, Option.getD_none]

/-- Bytes that fit can be read back. -/
theorem read?_write (m : Memory) {loc : Location} {bytes : Bytes} (fits : Fits loc bytes.length) :
    (m.write loc bytes).read? loc.region loc.offset bytes.length = some bytes := by
  have written : m.write? loc bytes = some (m.write loc bytes) := by rw [write?_eq, if_pos fits]
  refine Backing.read?_eq_some_iff.2 ⟨fits, List.ext_getElem (by simp) fun i hi _ => ?_⟩
  have at' := byte_write written ⟨loc.region, loc.offset + i⟩
  simp only [byte, true_and, Nat.le_add_right, if_true, Nat.add_sub_cancel_left,
    List.getElem?_eq_getElem hi, Option.getD_some] at at'
  simp only [List.getElem_map, List.getElem_range]
  exact at'.symm

theorem read?_eq_none_iff {m : Memory} {loc : Location} {n : Nat} :
    m.read? loc.region loc.offset n = none ↔ ¬ Fits loc n := by
  simp [read?, Backing.read?, Fits]

/-- A location that is not written keeps its byte. -/
theorem byte_write_of_not_covers (m : Memory) {start loc : Location} {bytes : Bytes}
    (clear : ¬ Covers start bytes.length loc) : (m.write start bytes).byte loc = m.byte loc := by
  by_cases fits : Fits start bytes.length
  · have written : m.write? start bytes = some (m.write start bytes) := by
      rw [write?_eq, if_pos fits]
    rw [byte_write written]
    split
    · next inside =>
      have late : ¬ loc.offset < start.offset + bytes.length :=
        fun below => clear ⟨inside.1, inside.2, below⟩
      rw [List.getElem?_eq_none (by omega), Option.getD_none]
    · rfl
  · rw [write_of_not_fits m fits]

/-- A write changes one region. -/
theorem region_write_of_ne (m : Memory) {loc : Location} {r : Region} (other : r ≠ loc.region)
    (bytes : Bytes) : (m.write loc bytes).region r = m.region r := by
  rw [write_eq_getD_write?, write?]
  cases (m.region loc.region).write? loc.offset bytes with
  | none => rfl
  | some block => exact region_setRegion_ne m block other

end Memory

/-- The store that an effect announces to the observers: its address and its width. -/
def Effect.announced? : Effect → Option (Address × Nat)
  | .observed addr width _ => some (addr, width)
  | _ => none

namespace Bus

variable {b : Bus} {addr : Address}

theorem memory_putAt (b : Bus) (loc : Location) (bytes : Bytes) :
    (b.putAt loc bytes).memory = b.memory.write loc bytes := rfl

/-- Everything that a store can do. A register access goes to the register handler. Bytes with a
target are put there and announced, and void compiled code if they came through a page. The switch
obeys a word at the cache-control register; any other store to a page that is not mapped flushes a
cache line while the cache is isolated; and what is left is counted as a miss. -/
theorem store_cases (b : Bus) (addr : Address) (w : Width) (value : UInt32) :
    (classify addr = .hardwareRegister ∧
        b.store addr w value =
          ({ b with memory := b.registers.write b.memory addr w value },
            [.registerWrite addr w value])) ∨
      (∃ loc after, b.target? addr w.bytes = some loc ∧
        after = b.putAt loc (Bytes.toLE w.bytes value.toNat) ∧
        b.store addr w value =
          (after, .observed addr w.bytes (after.memory.view addr w.bytes) ::
            if classify addr = .table then [.invalidated (addr / 4 * 4) 1] else [])) ∨
      (classify addr = .table ∧ b.target? addr w.bytes = none ∧
        ((addr = cacheControl ∧ w = .word ∧
            b.store addr w value =
              ({ b with isolation := (b.isolation.apply value).1 },
                if (b.isolation.apply value).2 = .isolated then [.invalidatedAll] else [])) ∨
          (¬ (addr = cacheControl ∧ w = .word) ∧ b.isolation.active = true ∧
            b.store addr w value = (b, [.invalidated addr 1])) ∨
          ((b.isolation.table.resolve addr = none →
              ¬ (addr = cacheControl ∧ w = .word) ∧ b.isolation.active = false) ∧
            b.store addr w value = (b.missWrite, [])))) := by
  cases hc : classify addr with
  | hardwareRegister => exact .inl ⟨rfl, by rw [store, hc]⟩
  | scratchpad offset =>
    have fits : Memory.Fits ⟨.hardware, offset⟩ w.bytes := by
      obtain ⟨-, low, rfl⟩ := classify_eq_scratchpad_iff.1 hc
      have : w.bytes ≤ 4 := by cases w <;> decide
      simp only [scratchpadSize] at low
      simp only [Memory.Fits, Region.size]
      omega
    refine .inr (.inl ⟨_, _, by rw [target?_scratchpad hc, if_pos fits], rfl, ?_⟩)
    simp [store, hc, fits]
  | table =>
    right
    cases hr : b.isolation.table.resolve addr with
    | some loc =>
      by_cases fits : Memory.Fits loc w.bytes
      · refine .inl ⟨loc, _, by simp [target?_table hc, hr, fits], rfl, ?_⟩
        simp [store, hc, hr, fits]
      · refine .inr ⟨rfl, by simp [target?_table hc, hr, fits], .inr (.inr ⟨?_, ?_⟩)⟩
        · intro blank
          cases blank
        · simp [store, hc, hr, fits]
    | none =>
      refine .inr ⟨rfl, target?_unmapped hc hr, ?_⟩
      have served : b.store addr w value = b.storeUnmapped addr w value := by simp [store, hc, hr]
      rw [served, storeUnmapped]
      by_cases control : addr = cacheControl ∧ w = .word
      · exact .inl ⟨control.1, control.2, if_pos control⟩
      · rw [if_neg control]
        right
        cases active : b.isolation.active with
        | true => exact .inl ⟨control, rfl, rfl⟩
        | false => exact .inr ⟨fun _ => ⟨control, rfl⟩, rfl⟩

/-- A store that is no register access writes its bytes at the target and nothing else. -/
theorem memory_store (hc : classify addr ≠ .hardwareRegister) (w : Width) (value : UInt32) :
    (b.store addr w value).1.memory =
      match b.target? addr w.bytes with
      | some loc => b.memory.write loc (Bytes.toLE w.bytes value.toNat)
      | none => b.memory := by
  rcases b.store_cases addr w value with ⟨register, -⟩ | ⟨loc, after, target, rfl, stored⟩ |
    ⟨-, target, ⟨-, -, stored⟩ | ⟨-, -, stored⟩ | ⟨-, stored⟩⟩
  · exact absurd register hc
  all_goals rw [stored, target]
  · exact b.memory_putAt loc _
  · rfl

/-- A store is announced, once, where it has a target. -/
theorem announced_store (b : Bus) (addr : Address) (w : Width) (value : UInt32) :
    (b.store addr w value).2.filterMap Effect.announced? =
      if (b.target? addr w.bytes).isSome then [(addr, w.bytes)] else [] := by
  rcases b.store_cases addr w value with ⟨register, stored⟩ | ⟨loc, after, target, -, stored⟩ |
    ⟨-, target, ⟨-, -, stored⟩ | ⟨-, -, stored⟩ | ⟨-, stored⟩⟩
  · rw [stored, target?_register register]
    rfl
  all_goals rw [stored, target]
  · simp only
    split <;> rfl
  · simp only
    split <;> rfl
  all_goals rfl

/-- A store leaves the isolation switch alone or has it obey one control value. -/
theorem isolation_store (b : Bus) (addr : Address) (w : Width) (value : UInt32) :
    (b.store addr w value).1.isolation = b.isolation ∨
      (b.store addr w value).1.isolation = (b.isolation.apply value).1 := by
  rcases b.store_cases addr w value with ⟨-, stored⟩ | ⟨loc, after, -, rfl, stored⟩ |
    ⟨-, -, ⟨-, -, stored⟩ | ⟨-, -, stored⟩ | ⟨-, stored⟩⟩
  all_goals rw [stored]
  · exact .inl rfl
  · exact .inl rfl
  · exact .inr rfl
  · exact .inl rfl
  · exact .inl rfl

/-- Everything that a load can do. A register access goes to the register handler, bytes that are
found in place are read, and what is left is counted as a miss. -/
theorem load_cases (b : Bus) (addr : Address) (w : Width) :
    (classify addr = .hardwareRegister ∧
        b.load addr w =
          (w.narrow (b.registers.read b.memory addr w), b, [.registerRead addr w])) ∨
      (∃ loc bytes, powerOnRead.locate addr = .ok loc ∧
        b.memory.read? loc.region loc.offset w.bytes = some bytes ∧
        b.load addr w = (UInt32.ofNat (Bytes.ofLE bytes), b, [])) ∨
      ((∀ loc, powerOnRead.locate addr = .ok loc → ¬ Memory.Fits loc w.bytes) ∧
        b.load addr w = (0, b.missRead, [])) := by
  have located (loc : Location) (at' : powerOnRead.locate addr = .ok loc)
      (served : b.load addr w = b.loadAt loc w) :
      (∃ loc bytes, powerOnRead.locate addr = .ok loc ∧
        b.memory.read? loc.region loc.offset w.bytes = some bytes ∧
        b.load addr w = (UInt32.ofNat (Bytes.ofLE bytes), b, [])) ∨
      ((∀ loc, powerOnRead.locate addr = .ok loc → ¬ Memory.Fits loc w.bytes) ∧
        b.load addr w = (0, b.missRead, [])) := by
    rw [served, loadAt]
    cases hr : b.memory.read? loc.region loc.offset w.bytes with
    | some bytes => exact .inl ⟨loc, bytes, at', hr, rfl⟩
    | none =>
      refine .inr ⟨fun loc' found fits => ?_, rfl⟩
      rw [at'] at found
      cases found
      exact Memory.read?_eq_none_iff.1 hr fits
  cases hc : classify addr with
  | hardwareRegister => exact .inl ⟨rfl, by rw [load, hc]⟩
  | scratchpad offset =>
    exact .inr (located ⟨.hardware, offset⟩ (by rw [locate, hc]) (by rw [load, hc]))
  | table =>
    right
    cases hr : powerOnRead.resolve addr with
    | some loc => exact located loc (by simp [locate, hc, hr]) (by simp [load, hc, hr])
    | none => exact .inr ⟨fun loc found => by simp [locate, hc, hr] at found, by simp [load, hc, hr]⟩

/-- A load changes no more than a counter. -/
theorem load_keeps (b : Bus) (addr : Address) (w : Width) :
    (b.load addr w).2.1.memory = b.memory ∧ (b.load addr w).2.1.isolation = b.isolation ∧
      (b.load addr w).2.1.registers = b.registers := by
  rcases b.load_cases addr w with ⟨-, loaded⟩ | ⟨loc, bytes, -, -, loaded⟩ | ⟨-, loaded⟩
  all_goals
    rw [loaded]
    exact ⟨rfl, rfl, rfl⟩

/-- A handle stores a byte just where the bus would. -/
theorem storeByHandle_spec (h : b.isolation.Coherent) (addr : Address) (value : UInt8) :
    (b.storeByHandle addr value).2.1.memory =
        (match b.target? addr 1 with
        | some loc => b.memory.write loc [value]
        | none => b.memory) ∧
      (b.storeByHandle addr value).2.2.filterMap Effect.announced? =
        (if (b.target? addr 1).isSome then [(addr, 1)] else []) ∧
      (b.storeByHandle addr value).2.1.isolation = b.isolation := by
  have miss (none' : ∀ loc, b.isolation.table.locate addr ≠ .ok loc) :
      b.target? addr 1 = none :=
    Option.eq_none_iff_forall_ne_some.2 fun loc ht => none' loc (target?_eq_some_iff.1 ht).1
  unfold storeByHandle
  cases hl : powerOnWrite.locate addr with
  | error e =>
    rw [miss fun loc hloc => by rw [h.locate_iff, hl] at hloc; cases hloc.1]
    exact ⟨rfl, rfl, rfl⟩
  | ok loc =>
    by_cases dropped : loc.region = .ram ∧ b.isolation.active = true
    · have blank : b.target? addr 1 = none := miss fun loc' hloc => by
        rw [h.locate_iff, hl] at hloc
        obtain ⟨same, clear⟩ := hloc
        cases same
        exact clear ⟨dropped.2, dropped.1⟩
      simp [if_pos dropped, blank]
    · have fits := (canonical_of_locate (locate_powerOnRead_of_write hl)).2
      have found : b.target? addr 1 = some loc := target?_eq_some_iff.2
        ⟨h.locate_iff.2 ⟨hl, fun ⟨ha, ram⟩ => dropped ⟨ram, ha⟩⟩, fits⟩
      simp only [dropped, if_false, found]
      exact ⟨rfl, rfl, rfl⟩

end Bus

end ConsoleBus
