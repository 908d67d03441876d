import ConsoleBus.Proofs.Runs

/-!
Which hooks a store reaches. Hooks are matched by canonical addresses, bytes are stored through page
tables; since the canonical form of a located address tells its place, the two agree
(`Hook.overlaps_iff`). A store therefore reaches just the hooks that share a byte of memory with
what it wrote (`Machine.reaches_iff_shared_byte`).
-/

namespace ConsoleBus

/-- The location is one of the bytes that the hook's range resolves to. -/
def Hook.Watches (h : Hook) (loc : Location) : Prop :=
  ∃ range, PageTable.powerOnRead.resolveRange h.start h.length.toNat = .ok range ∧
    Memory.Covers ⟨range.region, range.offset⟩ range.len loc

/-- For bytes in place, touching a hook by address and sharing a location with it are the same. -/
theorem Hook.overlaps_iff {h : Hook} {range : Range} (hs : h.Sited range) {addr : Address}
    {loc : Location} {n : Nat} (place : (canonical addr).toNat = loc.region.home + loc.offset)
    (fits : loc.offset + n ≤ loc.region.size) (pos : 0 < n) :
    h.overlaps (canonical addr) n = true ↔ ∃ l, Memory.Covers loc n l ∧ h.Watches l := by
  have touched : h.overlaps (canonical addr) n = true ↔
      loc.region.home + loc.offset < range.region.home + range.offset + range.len ∧
        range.region.home + range.offset < loc.region.home + loc.offset + n := by
    simp only [overlaps, stop, Bool.and_eq_true, decide_eq_true_eq, hs.start_eq, ← hs.len_eq, place]
  rw [touched]
  have hfits := hs.fits
  have hpos := hs.len_pos
  constructor
  · rintro ⟨before, after⟩
    have same : loc.region = range.region := by
      by_contra apart
      have := Region.home_apart apart
      omega
    rw [same] at before after
    -- the later of the two starts is in both
    refine ⟨⟨range.region, max loc.offset range.offset⟩, ⟨same.symm, ?_, ?_⟩,
      range, hs.resolved, rfl, ?_, ?_⟩ <;> simp only <;> omega
  · rintro ⟨l, ⟨hl, hlow, hhigh⟩, found, resolved, hf, hflow, hfhigh⟩
    have same : found = range := by
      rw [hs.resolved] at resolved
      exact (Except.ok.inj resolved).symm
    subst same
    have region : loc.region = found.region := hl.symm.trans hf
    rw [region]
    simp only at hflow hfhigh
    omega

/-- The address and the bytes of a store. -/
def Command.place? : Command → Option (Address × Bytes)
  | .store w addr value => some (addr, Bytes.toLE w.bytes (w.narrow value).toNat)
  | .handleWrite addr value => some (addr, [value])
  | _ => none

namespace Machine

variable {m : Machine} {specs : List HookSpec} {c : Command} {addr : Address} {bytes : Bytes}

/-- Whether the evaluation of the stores that a command announces comes to this hook. -/
def reaches (m : Machine) (c : Command) (h : Hook) : Bool :=
  ((m.perform c).2.2.filterMap Effect.announced?).any fun p =>
    m.registry.mayOverlap (canonical p.1) p.2 && h.overlaps (canonical p.1) p.2

/-! ### Stores -/

theorem bytes_pos (hp : c.place? = some (addr, bytes)) : 0 < bytes.length := by
  cases c with
  | store w a value =>
    cases hp
    rw [Bytes.length_toLE]
    cases w <;> decide
  | handleWrite a value =>
    cases hp
    exact Nat.zero_lt_one
  | _ => cases hp

/-- What a store means to the hooks. -/
theorem stimulus_of_place (hp : c.place? = some (addr, bytes)) :
    m.stimulus c =
      if (m.bus.target? addr bytes.length).isSome then .stored addr bytes.length else .quiet := by
  cases c with
  | store w a value =>
    cases hp
    rw [Bytes.length_toLE]
    rfl
  | handleWrite a value =>
    cases hp
    rfl
  | _ => cases hp

/-- A store is announced, once, where it has a target. -/
theorem announced_of_place (hm : m.Serves specs) (hp : c.place? = some (addr, bytes)) :
    (m.perform c).2.2.filterMap Effect.announced? =
      if (m.bus.target? addr bytes.length).isSome then [(addr, bytes.length)] else [] := by
  cases c with
  | store w a value =>
    cases hp
    rw [Bytes.length_toLE]
    exact m.bus.announced_store addr w (w.narrow value)
  | handleWrite a value =>
    cases hp
    exact (Bus.storeByHandle_spec hm.isolation addr value).2.1
  | _ => cases hp

/-- A store that is no register access writes its bytes at the target and nothing else. -/
theorem memory_of_place (hm : m.Serves specs) (hp : c.place? = some (addr, bytes))
    (hc : classify addr ≠ .hardwareRegister) :
    (m.next c).bus.memory =
      match m.bus.target? addr bytes.length with
      | some loc => m.bus.memory.write loc bytes
      | none => m.bus.memory := by
  cases c with
  | store w a value =>
    cases hp
    rw [next_store, bus_hear, Bytes.length_toLE]
    exact Bus.memory_store hc w (w.narrow value)
  | handleWrite a value =>
    cases hp
    rw [next_handleWrite, bus_hear]
    exact (Bus.storeByHandle_spec hm.isolation addr value).1
  | _ => cases hp

/-- Where a store lands its bytes can be read. -/
theorem read?_of_place (hm : m.Serves specs) (hp : c.place? = some (addr, bytes))
    (hc : classify addr ≠ .hardwareRegister) {range : Range}
    (lands : m.bus.Lands addr bytes.length range) :
    (m.next c).bus.memory.read? range.region range.offset bytes.length = some bytes := by
  obtain ⟨found, -⟩ := (Bus.lands_iff hm.isolation).1 lands
  rw [memory_of_place hm hp hc, found]
  exact Memory.read?_write _ (Bus.target?_eq_some_iff.1 found).2

/-! ### Exactness -/

/-- A store whose bytes have a target reaches the hooks that overlap it, and a store without one
reaches none. -/
theorem reaches_iff_overlaps (hm : m.Serves specs) (hp : c.place? = some (addr, bytes)) {h : Hook}
    (hh : h ∈ m.registry.hooks) : m.reaches c h = true ↔
      (m.bus.target? addr bytes.length).isSome = true ∧
        h.overlaps (canonical addr) bytes.length = true := by
  unfold reaches
  rw [announced_of_place hm hp]
  by_cases landed : (m.bus.target? addr bytes.length).isSome = true
  · simp only [landed, if_true, List.any_cons, List.any_nil, Bool.or_false, Bool.and_eq_true,
      true_and]
    exact ⟨fun both => both.2, fun touched => ⟨hm.registry.mayOverlap hh touched, touched⟩⟩
  · simp [landed]

/-- A store reaches the hooks that watch a byte it wrote. -/
theorem reaches_iff_shared_byte (hm : m.Serves specs) (hp : c.place? = some (addr, bytes))
    {h : Hook} (hh : h ∈ m.registry.hooks) : m.reaches c h = true ↔
      ∃ loc, m.bus.Writes addr bytes.length loc ∧ h.Watches loc := by
  obtain ⟨range, sited⟩ := hm.registry.sited hh
  rw [reaches_iff_overlaps hm hp hh]
  simp only [Bus.writes_iff hm.isolation]
  cases found : m.bus.target? addr bytes.length with
  | none => simp
  | some target =>
    obtain ⟨place, fits⟩ := Bus.canonical_of_target hm.isolation found
    simp [Hook.overlaps_iff sited place fits (bytes_pos hp)]

/-- A hook that a store reaches is touched, and any other is left alone. -/
theorem respond_of_place (hm : m.Serves specs) (hp : c.place? = some (addr, bytes)) {h : Hook}
    (hh : h ∈ m.registry.hooks) (memory : Memory) :
    h.respond (m.stimulus c) memory = if m.reaches c h then h.touch memory else (h, none) := by
  have reached := reaches_iff_overlaps hm hp hh
  rw [stimulus_of_place hp]
  by_cases landed : (m.bus.target? addr bytes.length).isSome = true
  · simp only [landed, true_and] at reached
    simp only [landed, if_true, Hook.respond, Hook.onStore, reached]
  · have passed : m.reaches c h = false :=
      Bool.eq_false_iff.2 fun yes => landed (reached.1 yes).1
    simp [landed, Hook.respond, passed]

/-- Matching is exact. In every state that a run from power-on leads to, a store that is no register
access writes its bytes where the power-on table and the isolation flag say, and nothing else; the
hooks that watch one of these bytes are touched, in their order, and no others. -/
theorem store_touches_watching_hooks (fresh : m.Fresh specs) (run : List Command)
    (hp : c.place? = some (addr, bytes)) (hc : classify addr ≠ .hardwareRegister) :
    (∀ range, (m.after run).bus.Lands addr bytes.length range →
        ((m.after run).next c).bus.memory.read? range.region range.offset bytes.length =
          some bytes) ∧
      (∀ loc, ¬ (m.after run).bus.Writes addr bytes.length loc →
        ((m.after run).next c).bus.memory.byte loc = (m.after run).bus.memory.byte loc) ∧
      (∀ h ∈ (m.after run).registry.hooks, (m.after run).reaches c h = true ↔
        ∃ loc, (m.after run).bus.Writes addr bytes.length loc ∧ h.Watches loc) ∧
      (((m.after run).next c).registry, (m.after run).events c) =
        (m.after run).registry.step (fun h =>
          if (m.after run).reaches c h then h.touch ((m.after run).next c).bus.memory
          else (h, none)) ∧
      ((m.after run).next c).notifier =
        (m.after run).notifier.report ((m.after run).events c) := by
  have hm := fresh.serves.after run
  obtain ⟨moved, reported⟩ := next_spec hm c
  refine ⟨fun range lands => read?_of_place hm hp hc lands, fun loc clear => ?_,
    fun h hh => reaches_iff_shared_byte hm hp hh, ?_, reported⟩
  · rw [memory_of_place hm hp hc]
    cases found : (m.after run).bus.target? addr bytes.length with
    | none => rfl
    | some target =>
      exact Memory.byte_write_of_not_covers _ fun covered =>
        clear ((Bus.writes_iff hm.isolation).2 ⟨target, found, covered⟩)
  · rw [moved, events]
    unfold Registry.respond Registry.step
    rw [List.map_congr_left fun h hh => respond_of_place hm hp hh _]

/-- A store through the last copy of RAM in the uncached window reaches a hook on the first bytes of
RAM. -/
theorem mirrored_store_touches :
    let spec : HookSpec := { key := 1, start := 0, length := 4 }
    let m : Machine := { registry := Registry.empty.register spec }
    let c : Command := .store .half 0xa0600002 7
    m.Fresh [spec] ∧ c.place? = some (0xa0600002, [7, 0]) ∧
      classify 0xa0600002 ≠ .hardwareRegister ∧ m.reaches c (Hook.ofSpec spec) = true := by
  intro spec m c
  have admissible : spec.Admissible :=
    ⟨by decide, by decide, .ram, by decide, by decide, by decide⟩
  have fresh : m.Fresh [spec] := by
    refine ⟨rfl, Registry.ofSpecs_eq_ok_iff.2 ⟨fun s hs => ?_, by decide, rfl⟩⟩
    rwa [List.mem_singleton.1 hs]
  have hp : c.place? = some (0xa0600002, [7, 0]) := by decide
  have hc : classify 0xa0600002 ≠ .hardwareRegister := by decide
  have located : PageTable.powerOnRead.locate 0 = .ok ⟨.ram, 0⟩ :=
    PageTable.locate_powerOnRead_iff.2 ⟨by decide, 0, by decide, by decide⟩
  have watched : (Hook.ofSpec spec).Watches ⟨.ram, 2⟩ :=
    ⟨⟨.ram, 0, 4⟩, PageTable.resolveRange_eq_ok_iff.2 ⟨located, by decide, by decide⟩,
      rfl, by decide, by decide⟩
  have written : m.bus.Writes 0xa0600002 2 ⟨.ram, 2⟩ :=
    ⟨⟨.ram, 2, 2⟩, ⟨by decide, by decide⟩, rfl, by decide, by decide⟩
  exact ⟨fresh, hp, hc, ((store_touches_watching_hooks fresh [] hp hc).2.2.1 _ (by decide)).2
    ⟨_, written, watched⟩⟩

end Machine

end ConsoleBus
