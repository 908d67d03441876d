import ConsoleBus.Proofs.Registration

/-!
What the accepted ranges cover, told in the addresses that a spec is written in. A range within one
visible window is always accepted. Beyond that three kinds of range are: one in the ROM, one that
starts in the scratchpad and runs on over the hardware registers, and one that starts where nothing
is mapped but folds onto memory.
-/

namespace ConsoleBus

open PageTable

namespace HookSpec

/-! ### Kinds of ranges -/

/-- Every watched address lies in a window. -/
def Inside (s : HookSpec) (base size : Nat) : Prop :=
  ∀ i < s.length.toNat, base ≤ s.start.toNat + i ∧ s.start.toNat + i < base + size

/-- Every watched address lies in the same copy of RAM, or in the parallel port, or in the
scratchpad. -/
def Visible (s : HookSpec) : Prop :=
  ∃ r : Region, r ≠ .bios ∧ ∃ base ∈ r.views, s.Inside base r.visibleSize

/-- Every watched address lies in the ROM. -/
def InRom (s : HookSpec) : Prop :=
  ∃ base ∈ Region.bios.views, s.Inside base Region.bios.size

/-- The range starts in the scratchpad and ends among the hardware registers behind it. -/
def Overruns (s : HookSpec) : Prop :=
  ∃ base ∈ Region.hardware.views, base ≤ s.start.toNat ∧ s.start.toNat < base + scratchpadSize ∧
    base + scratchpadSize < s.start.toNat + s.length.toNat ∧
    s.start.toNat + s.length.toNat ≤ base + Region.hardware.size

/-- Nothing is mapped where the range starts, but there is memory where it folds to. -/
def Aliased (s : HookSpec) : Prop :=
  powerOnRead.locate s.start = .error (.unmapped s.start) ∧ s.Backed

/-- The range is accepted, though it keeps to no visible window. -/
def Stray (s : HookSpec) : Prop := s.InRom ∨ s.Overruns ∨ s.Aliased

theorem length_pos {s : HookSpec} (h : s.length ≠ 0) : 0 < s.length.toNat := by
  rcases Nat.eq_zero_or_pos s.length.toNat with hz | hp
  · exact absurd (UInt32.toNat.inj hz) h
  · exact hp

theorem inside_iff {s : HookSpec} (h : s.length ≠ 0) {base size : Nat} : s.Inside base size ↔
    base ≤ s.start.toNat ∧ s.start.toNat + s.length.toNat ≤ base + size := by
  have hpos := length_pos h
  constructor
  · intro all
    have first := all 0 hpos
    have last := all (s.length.toNat - 1) (by omega)
    omega
  · rintro ⟨low, high⟩ i hi
    omega

/-- The start of a range that begins in a view is located there. -/
theorem locate_start {s : HookSpec} {r : Region} {base : Nat} (hb : base ∈ r.views)
    (low : base ≤ s.start.toNat) (high : s.start.toNat < base + r.visibleSize) :
    powerOnRead.locate s.start = .ok ⟨r, s.start.toNat - base⟩ :=
  locate_powerOnRead_iff.2 ⟨by simp only; omega, base, hb, by simp only; omega⟩

/-- A range that begins in the visible part of a view and ends in the view is backed. -/
theorem backed_of_view {s : HookSpec} {r : Region} {base : Nat} (hb : base ∈ r.views)
    (low : base ≤ s.start.toNat) (high : s.start.toNat < base + r.visibleSize)
    (fits : s.start.toNat + s.length.toNat ≤ base + r.size) : s.Backed := by
  have home := (canonical_of_locate (locate_start hb low high)).1
  simp only at home
  exact ⟨r, by omega, by omega, by omega⟩

/-! ### The kinds are exact -/

/-- A backed range that starts at a mapped address is visible, or in the ROM, or overruns the
scratchpad. -/
theorem kind_of_locate {s : HookSpec} (h : s.length ≠ 0) (hs : s.Backed) {loc : Location}
    (located : powerOnRead.locate s.start = .ok loc) : s.Visible ∨ s.InRom ∨ s.Overruns := by
  obtain ⟨r, low, seen, high⟩ := hs
  obtain ⟨home, within⟩ := canonical_of_locate located
  obtain ⟨offset, base, hbase, haddr⟩ := locate_powerOnRead_iff.1 located
  have inside : (canonical s.start).toNat - r.home < r.size := by
    have := r.visibleSize_le
    omega
  obtain ⟨rfl, -⟩ := Region.eq_of_home within inside (by omega)
  by_cases hrom : loc.region = .bios
  · rw [hrom] at hbase high home
    exact .inr (.inl ⟨base, hbase, (inside_iff h).2 ⟨by omega, by omega⟩⟩)
  · by_cases ends : s.start.toNat + s.length.toNat ≤ base + loc.region.visibleSize
    · exact .inl ⟨loc.region, hrom, base, hbase, (inside_iff h).2 ⟨by omega, ends⟩⟩
    · -- only of the hardware window a part is not visible
      have hw : loc.region = .hardware := by
        cases hl : loc.region with
        | hardware => rfl
        | _ =>
          rw [hl] at ends high home
          simp only [Region.visibleSize] at ends
          omega
      rw [hw] at hbase high home offset ends
      simp only [Region.visibleSize] at offset ends
      exact .inr (.inr ⟨base, hbase, by omega, by omega, by omega, by omega⟩)

/-- The start of a backed range is mapped or at least not a hardware register. -/
theorem aliased_of_locate {s : HookSpec} (hs : s.Backed) {e : MemoryError}
    (lost : powerOnRead.locate s.start = .error e) : s.Aliased := by
  refine ⟨?_, hs⟩
  unfold locate at lost ⊢
  cases hc : classify s.start with
  | scratchpad offset => simp [hc] at lost
  | hardwareRegister =>
    -- a hardware register folds onto the part of the window that is not visible
    obtain ⟨r, low, seen, high⟩ := hs
    have hfold := canonical_cases s.start
    rw [classify_eq_hardwareRegister_iff] at hc
    simp only [hardwarePages, List.mem_cons, List.not_mem_nil, or_false, pageOf, pageOffset,
      pageSize, scratchpadSize] at hc
    cases r <;>
      simp only [Region.home, Region.visibleSize, Region.size, scratchpadSize] at low seen high <;>
      omega
  | table =>
    cases hr : powerOnRead.resolve s.start with
    | none => rfl
    | some loc => simp [hc, hr] at lost

/-- A backed range is visible or stray. -/
theorem backed_iff_visible_or_stray {s : HookSpec} (h : s.length ≠ 0) :
    s.Backed ↔ s.Visible ∨ s.Stray := by
  have hpos := length_pos h
  constructor
  · intro hs
    cases hl : powerOnRead.locate s.start with
    | ok loc =>
      rcases kind_of_locate h hs hl with seen | rom | overrun
      · exact .inl seen
      · exact .inr (.inl rom)
      · exact .inr (.inr (.inl overrun))
    | error e => exact .inr (.inr (.inr (aliased_of_locate hs hl)))
  · rintro (⟨r, -, base, hb, inside⟩ | ⟨base, hb, inside⟩ | ⟨base, hb, low, seen, -, high⟩ | folded)
    · obtain ⟨low, high⟩ := (inside_iff h).1 inside
      have := r.visibleSize_le
      exact backed_of_view hb low (by omega) (by omega)
    · obtain ⟨low, high⟩ := (inside_iff h).1 inside
      exact backed_of_view hb low (by simp only [Region.visibleSize]; omega) high
    · exact backed_of_view hb low seen high
    · exact folded.2

/-- No range is both. -/
theorem not_stray_of_visible {s : HookSpec} (h : s.length ≠ 0) (hv : s.Visible) : ¬ s.Stray := by
  have hpos := length_pos h
  obtain ⟨r, hr, base, hb, inside⟩ := hv
  obtain ⟨low, high⟩ := (inside_iff h).1 inside
  have located := locate_start hb low (by omega)
  rintro (⟨base', hb', inside'⟩ | ⟨base', hb', low', seen', past, -⟩ | folded)
  · obtain ⟨low', high'⟩ := (inside_iff h).1 inside'
    have rom := locate_start hb' low' (by simp only [Region.visibleSize]; omega)
    rw [located] at rom
    simp only [Except.ok.injEq, Location.mk.injEq] at rom
    exact hr rom.1
  · have pad := locate_start hb' low' seen'
    rw [located] at pad
    simp only [Except.ok.injEq, Location.mk.injEq] at pad
    obtain ⟨rfl, same⟩ := pad
    simp only [Region.visibleSize] at high
    omega
  · have lost := folded.1
    rw [located] at lost
    cases lost

end HookSpec

/-! ### Lists -/

/-- A hook list that watches visible memory only: keys within bounds and each used once, no empty
range, and each range within the address space and one visible window. -/
def Watchable (specs : List HookSpec) : Prop :=
  (∀ s ∈ specs, s.key ≤ maxHookKey ∧ s.length ≠ 0 ∧
      s.start.toNat + s.length.toNat ≤ UInt32.size ∧ s.Visible) ∧
    (specs.map HookSpec.key).Nodup

/-- A list is accepted when its keys are in order and each range is visible or stray; so the visible
lists are accepted, and exactly the accepted lists with a stray range are not visible. -/
theorem accepted_iff_visible_or_stray (specs : List HookSpec) :
    ((∃ r, Registry.ofSpecs specs = .ok r) ↔
        (∀ s ∈ specs, s.key ≤ maxHookKey ∧ s.length ≠ 0 ∧ (s.Visible ∨ s.Stray)) ∧
          (specs.map HookSpec.key).Nodup) ∧
      (((∃ r, Registry.ofSpecs specs = .ok r) ↔ Watchable specs) ↔
        ¬ ((∃ r, Registry.ofSpecs specs = .ok r) ∧ ∃ s ∈ specs, s.Stray)) := by
  have accepted : (∃ r, Registry.ofSpecs specs = .ok r) ↔
      (∀ s ∈ specs, s.key ≤ maxHookKey ∧ s.length ≠ 0 ∧ (s.Visible ∨ s.Stray)) ∧
        (specs.map HookSpec.key).Nodup := by
    simp only [Registry.ofSpecs_eq_ok_iff, exists_and_left, exists_eq, and_true]
    refine and_congr_left fun _ => forall₂_congr fun s _ => ?_
    constructor
    · rintro ⟨hk, hl, hb⟩
      exact ⟨hk, hl, (HookSpec.backed_iff_visible_or_stray hl).1 hb⟩
    · rintro ⟨hk, hl, hv⟩
      exact ⟨hk, hl, (HookSpec.backed_iff_visible_or_stray hl).2 hv⟩
  refine ⟨accepted, ?_⟩
  rw [accepted]
  constructor
  · rintro same ⟨good, s, hs, stray⟩
    obtain ⟨-, hl, -, hv⟩ := (same.1 good).1 s hs
    exact HookSpec.not_stray_of_visible hl hv stray
  · intro unstray
    constructor
    · rintro ⟨good, nodup⟩
      refine ⟨fun s hs => ?_, nodup⟩
      obtain ⟨hk, hl, hv⟩ := good s hs
      have seen := hv.resolve_right fun stray => unstray ⟨⟨good, nodup⟩, s, hs, stray⟩
      have ends := ((HookSpec.backed_iff_visible_or_stray hl).2 (.inl seen)).end_lt.2
      exact ⟨hk, hl, Nat.le_of_lt ends, seen⟩
    · rintro ⟨good, nodup⟩
      exact ⟨fun s hs => ⟨(good s hs).1, (good s hs).2.1, .inl (good s hs).2.2.2⟩, nodup⟩

/-- Two bytes, the last of the scratchpad and the first hardware register, are accepted. -/
theorem register_range_accepted :
    (∃ r, Registry.ofSpecs [{ key := 1, start := 0x1f8003ff, length := 2 }] = .ok r) ∧
      classify (0x1f8003ff + 1) = .hardwareRegister ∧
      ¬ Watchable [{ key := 1, start := 0x1f8003ff, length := 2 }] := by
  have overrun : HookSpec.Overruns { key := 1, start := 0x1f8003ff, length := 2 } :=
    ⟨0x1f800000, by decide, by decide, by decide, by decide, by decide⟩
  have hl : (2 : UInt32) ≠ 0 := by decide
  refine ⟨⟨_, Registry.ofSpecs_eq_ok_iff.2 ⟨?_, by decide, rfl⟩⟩, by decide, ?_⟩
  · intro s hs
    rw [List.mem_singleton] at hs
    subst hs
    exact ⟨by decide, hl, (HookSpec.backed_iff_visible_or_stray hl).2 (.inr (.inr (.inl overrun)))⟩
  · rintro ⟨good, -⟩
    obtain ⟨-, -, -, seen⟩ := good _ List.mem_cons_self
    exact HookSpec.not_stray_of_visible hl seen (.inr (.inl overrun))

end ConsoleBus
