import ConsoleBus.Proofs.Matching
import Mathlib.Data.List.Induction

/-!
Cache isolation over a run. The switch follows the last control value that it recognised
(`Machine.active_after_iff`), and its write table is the one of power-on with the RAM windows blank
while the cache is isolated (`Isolation.Coherent.resolve_eq`). No store that finds the cache isolated
changes RAM (`Machine.ram_next`), so RAM comes back from an isolation as it went in
(`Machine.isolation_after_run`).
-/

namespace ConsoleBus

open PageTable

/-! ### The RAM windows -/

/-- The address lies in one of the three windows that show RAM. -/
def InRamWindow (addr : Address) : Prop :=
  ∃ first ∈ ramPages, first * pageSize ≤ addr.toNat ∧ addr.toNat < first * pageSize + ramWindow

instance (addr : Address) : Decidable (InRamWindow addr) :=
  inferInstanceAs (Decidable (∃ first ∈ ramPages, _))

variable {addr : Address}

theorem inRamWindow_iff : InRamWindow addr ↔ isRamPage (pageOf addr) = true := by
  rw [isRamPage_iff]
  simp [InRamWindow, ramPages, pageOf, pageSize, ramWindow]
  omega

/-- At power-on each window shows RAM from its first byte on, again and again. -/
theorem resolve_of_inRamWindow (window : InRamWindow addr) :
    powerOnWrite.resolve addr = some ⟨.ram, addr.toNat % Region.ram.size⟩ := by
  rw [inRamWindow_iff] at window
  refine resolve_eq_some_iff.2
    ⟨_, entry_powerOnWrite_eq_some_iff.2 (.inl ⟨window, rfl⟩), rfl, ?_⟩
  simp only [ramEntry, pageOf, pageOffset, pageSize, Region.size]
  omega

namespace Isolation

variable {s : Isolation}

/-- What the write table makes of an address is settled by the flag. -/
theorem Coherent.resolve_eq (h : s.Coherent) (addr : Address) :
    s.table.resolve addr =
      if s.active = true ∧ InRamWindow addr then none else powerOnWrite.resolve addr := by
  unfold resolve
  rw [h]
  by_cases blank : s.active = true ∧ InRamWindow addr
  · rw [if_pos blank, if_pos ⟨blank.1, inRamWindow_iff.1 blank.2⟩]
    rfl
  · rw [if_neg blank, if_neg fun both => blank ⟨both.1, inRamWindow_iff.2 both.2⟩]

/-- The cache-control register is on no page of the write table. -/
theorem Coherent.resolve_cacheControl (h : s.Coherent) : s.table.resolve cacheControl = none := by
  rw [h.resolve_eq]
  split
  · rfl
  · decide

/-! ### The flag -/

/-- A recognised control value decides the flag, any other leaves it. -/
theorem active_apply (s : Isolation) (value : UInt32) :
    (s.apply value).1.active =
      if value ∈ isolateValues then true
      else if value ∈ restoreValues then false else s.active := by
  unfold apply
  by_cases isolate : value ∈ isolateValues
  · rw [if_pos isolate, if_pos isolate]
    split
    · next active => exact active
    · rfl
  · rw [if_neg isolate, if_neg isolate]
    split
    · split
      · rfl
      · next active => exact Bool.eq_false_iff.2 active
    · rfl

end Isolation

/-- A store reaches the switch just where it is a word at the cache-control register. -/
theorem Bus.isolation_store_eq {b : Bus} (h : b.isolation.Coherent) (addr : Address) (w : Width)
    (value : UInt32) :
    (b.store addr w value).1.isolation =
      if addr = cacheControl ∧ w = .word then (b.isolation.apply value).1 else b.isolation := by
  -- such a word is neither a register access nor a store with a target
  have away (offered : addr = cacheControl ∧ w = .word) :
      classify addr = .table ∧ b.isolation.table.resolve addr = none := by
    rw [offered.1]
    exact ⟨by decide, h.resolve_cacheControl⟩
  rcases b.store_cases addr w value with ⟨register, stored⟩ | ⟨loc, after, target, rfl, stored⟩ |
    ⟨-, -, ⟨control, word, stored⟩ | ⟨other, -, stored⟩ | ⟨missed, stored⟩⟩
  · have other : ¬ (addr = cacheControl ∧ w = .word) := by
      intro offered
      rw [(away offered).1] at register
      cases register
    rw [stored, if_neg other]
  · have other : ¬ (addr = cacheControl ∧ w = .word) := by
      intro offered
      rw [target?_unmapped (away offered).1 (away offered).2] at target
      cases target
    rw [stored, if_neg other]
    rfl
  · rw [stored]
    exact (if_pos ⟨control, word⟩).symm
  · rw [stored]
    exact (if_neg other).symm
  · rw [stored]
    exact (if_neg fun offered => (missed (away offered).2).1 offered).symm

/-- The register handler writes nothing into RAM. A store to a register goes to the handler alone, so
nothing less would keep RAM from such a store. -/
def RegisterHandler.SparesRam (r : RegisterHandler) : Prop :=
  ∀ (m : Memory) (addr : Address) (w : Width) (value : UInt32),
    (r.write m addr w value).ram = m.ram

theorem RegisterHandler.sparesRam_plain : plain.SparesRam := by
  intro m addr w value
  have other : Region.ram ≠ .hardware := by decide
  change (m.write ⟨.hardware, pageOffset addr⟩ _).region .ram = m.region .ram
  refine m.region_write_of_ne ?_ _
  exact other

namespace Bus

variable {b : Bus}

/-- What has a target while the cache is isolated has it outside RAM. -/
theorem target_ne_ram (h : b.isolation.Coherent) (shut : b.isolation.active = true) {n : Nat}
    {loc : Location} (target : b.target? addr n = some loc) : loc.region ≠ .ram := by
  intro ram
  have located := (target?_eq_some_iff.1 target).1
  exact (h.locate_iff.1 located).2 ⟨shut, ram⟩

/-- Bytes put at their target while the cache is isolated leave RAM alone. -/
theorem ram_of_target (h : b.isolation.Coherent) (shut : b.isolation.active = true) (addr : Address)
    (n : Nat) (bytes : Bytes) :
    (match b.target? addr n with
      | some loc => b.memory.write loc bytes
      | none => b.memory).ram = b.memory.ram := by
  cases target : b.target? addr n with
  | none => rfl
  | some loc => exact b.memory.region_write_of_ne (target_ne_ram h shut target).symm bytes

/-- An access that finds the cache isolated leaves RAM alone. -/
theorem ram_serve (h : b.isolation.Coherent) (spares : b.registers.SparesRam)
    (shut : b.isolation.active = true) (c : Command) : (b.serve c).memory.ram = b.memory.ram := by
  cases c with
  | load w addr => exact congrArg Memory.ram (b.load_keeps addr w).1
  | store w addr value =>
    rw [serve]
    by_cases register : classify addr = .hardwareRegister
    · rw [store, register]
      exact spares _ _ _ _
    · rw [memory_store register]
      exact ram_of_target h shut addr _ _
  | handleWrite addr value =>
    rw [serve, (storeByHandle_spec h addr value).1]
    exact ram_of_target h shut addr _ _
  | _ => rfl

end Bus

/-- The control value that a command hands to the switch, if the switch knows it. -/
def Command.control? : Command → Option UInt32
  | .store .word addr value =>
    if addr = cacheControl ∧ value ∈ isolateValues ++ restoreValues then some value else none
  | _ => none

namespace Machine

variable {m : Machine} {specs : List HookSpec} {c : Command}

/-- A command sets the flag by its control value, or leaves it. -/
theorem active_next (hm : m.Serves specs) (c : Command) :
    (m.next c).bus.isolation.active =
      match c.control? with
      | some value => decide (value ∈ isolateValues)
      | none => m.bus.isolation.active := by
  cases c with
  | store w addr value =>
    rw [next_store, bus_hear, Bus.isolation_store_eq hm.isolation]
    by_cases offered : addr = cacheControl ∧ w = .word
    · obtain ⟨rfl, rfl⟩ := offered
      rw [if_pos ⟨rfl, rfl⟩, Width.narrow_word, Isolation.active_apply]
      by_cases isolate : value ∈ isolateValues
      · simp [Command.control?, isolate]
      · by_cases restore : value ∈ restoreValues <;> simp [Command.control?, isolate, restore]
    · have silent : (Command.store w addr value).control? = none := by
        cases w with
        | word => exact if_neg fun both => offered ⟨both.1, rfl⟩
        | _ => rfl
      rw [if_neg offered, silent]
  | handleWrite addr value =>
    rw [next_handleWrite, bus_hear, (Bus.storeByHandle_spec hm.isolation addr value).2.2]
    rfl
  | load w addr => exact congrArg Isolation.active (m.bus.load_keeps addr w).2.1
  | loadBios image => exact congrArg Isolation.active (next_loadBios m image).2.2
  | poke region offset bytes => exact congrArg Isolation.active (next_poke m region offset bytes).2.2
  | _ => rfl

/-- After a run that began open, the cache is isolated just when the last control value that the
switch knew was one that isolates. -/
theorem active_after_iff (hm : m.Serves specs) (opened : m.bus.isolation.active = false)
    (run : List Command) :
    (m.after run).bus.isolation.active = true ↔
      ∃ value ∈ isolateValues, (run.filterMap Command.control?).getLast? = some value := by
  induction run using List.reverseRecOn with
  | nil => simp [opened]
  | append_singleton run c ih =>
    rw [after_append, after_cons, after_nil, active_next (hm.after run), List.filterMap_append]
    cases said : c.control? with
    | none => simpa [said] using ih
    | some value => simp [said]

/-- A command that finds the cache isolated leaves RAM alone, unless it changes storage directly. -/
theorem ram_next (hm : m.Serves specs) (spares : m.bus.registers.SparesRam)
    (shut : m.bus.isolation.active = true) (indirect : c.direct = false) :
    (m.next c).bus.memory.ram = m.bus.memory.ram := by
  rw [bus_next m indirect]
  exact Bus.ram_serve hm.isolation spares shut c

/-- A store that finds the cache isolated reaches no hook in RAM. -/
theorem reaches_of_isolated (hm : m.Serves specs) (shut : m.bus.isolation.active = true)
    {bytes : Bytes} (hp : c.place? = some (addr, bytes)) {h : Hook} (hh : h ∈ m.registry.hooks)
    {loc : Location} (watched : h.Watches loc) (ram : loc.region = .ram) :
    m.reaches c h = false := by
  rw [Bool.eq_false_iff]
  intro reached
  obtain ⟨loc', ⟨range, ⟨-, clear⟩, covered⟩, watched'⟩ :=
    (reaches_iff_shared_byte hm hp hh).1 reached
  obtain ⟨found, resolved, inside⟩ := watched
  obtain ⟨found', resolved', inside'⟩ := watched'
  -- all of a hook's bytes are in one region
  have same : found' = found := by
    rw [resolved] at resolved'
    exact (Except.ok.inj resolved').symm
  subst same
  refine clear ⟨shut, ?_⟩
  calc range.region = loc'.region := covered.1.symm
    _ = found'.region := inside'.1
    _ = loc.region := inside.1.symm
    _ = .ram := ram

/-- Every command of a run finds the cache isolated, and none of them changes storage directly. -/
def RunsIsolated (m : Machine) : List Command → Prop
  | [] => True
  | c :: cs => (m.bus.isolation.active = true ∧ c.direct = false) ∧ RunsIsolated (m.next c) cs

theorem ram_after (hm : m.Serves specs) (spares : m.bus.registers.SparesRam) {cs : List Command}
    (shut : m.RunsIsolated cs) : (m.after cs).bus.memory.ram = m.bus.memory.ram := by
  induction cs generalizing m with
  | nil => rfl
  | cons c cs ih =>
    obtain ⟨⟨now, indirect⟩, rest⟩ := shut
    rw [after_cons, ih (hm.next c) (by rwa [registers_next]) rest]
    exact ram_next hm spares now indirect

/-- Cache isolation, after any run from power-on, under any register handler that writes nothing into
RAM. The write table sends an address where the
power-on table sends it, and the RAM windows nowhere while the cache is isolated. The bus and its
handles call the cache isolated just when the last control value that the switch knew was one that
isolates. A store that finds the cache isolated leaves RAM alone and reaches no hook in RAM; so RAM
is the same at the end of an isolation, the restoring store included, as it was at the beginning. -/
theorem isolation_after_run (fresh : m.Fresh specs) (spares : m.bus.registers.SparesRam)
    (run : List Command) :
    (∀ addr, (m.after run).bus.isolation.table.resolve addr =
        if (m.after run).bus.isolation.active = true ∧ InRamWindow addr then none
        else powerOnWrite.resolve addr) ∧
      (∀ addr, InRamWindow addr →
        powerOnWrite.resolve addr = some ⟨.ram, addr.toNat % Region.ram.size⟩) ∧
      (∃ isolated, ((m.after run).perform .isolated).1 = .flags isolated isolated ∧
        (m.after run).bus.isolation.active = isolated ∧
        (isolated = true ↔
          ∃ value ∈ isolateValues, (run.filterMap Command.control?).getLast? = some value)) ∧
      ((m.after run).bus.isolation.active = true → ∀ c addr bytes, c.place? = some (addr, bytes) →
        ((m.after run).next c).bus.memory.ram = (m.after run).bus.memory.ram ∧
          ∀ h ∈ (m.after run).registry.hooks, ∀ loc, h.Watches loc → loc.region = .ram →
            (m.after run).reaches c h = false) ∧
      ∀ during, (m.after run).RunsIsolated during →
        (m.after (run ++ during)).bus.memory.ram = (m.after run).bus.memory.ram := by
  have hm := fresh.serves.after run
  have spares' : (m.after run).bus.registers.SparesRam := by rwa [registers_after]
  have opened : m.bus.isolation.active = false := by rw [fresh.isolation]; rfl
  refine ⟨hm.isolation.resolve_eq, ?_, ?_, ?_, ?_⟩
  · -- the windows at power-on
    intro addr window
    exact resolve_of_inRamWindow window
  · -- the flag
    exact ⟨_, rfl, rfl, active_after_iff fresh.serves opened run⟩
  · -- one store
    intro shut c addr bytes hp
    have indirect : c.direct = false := by
      cases c with
      | store w addr value => rfl
      | handleWrite addr value => rfl
      | _ => cases hp
    refine ⟨ram_next hm spares' shut indirect, ?_⟩
    intro h hh loc watched ram
    exact reaches_of_isolated hm shut hp hh watched ram
  · -- the stores of an isolation
    intro during shut
    rw [after_append]
    exact ram_after hm spares' shut

/-- A word and a byte that are stored to RAM through two windows between an isolating store and a
restoring one leave no trace. -/
theorem isolated_bytes_lost :
    let m : Machine := {}
    let isolate : List Command := [.store .word cacheControl 0x804]
    let during : List Command :=
      [.store .word 0xa0200010 7, .handleWrite 0x80000010 7, .store .word cacheControl 0x1e988]
    m.Fresh [] ∧ m.bus.registers.SparesRam ∧ (m.after isolate).RunsIsolated during ∧
      (m.after (isolate ++ during)).bus.memory.ram = (m.after isolate).bus.memory.ram := by
  intro m isolate during
  have fresh : m.Fresh [] := ⟨rfl, rfl⟩
  have spares : m.bus.registers.SparesRam := RegisterHandler.sparesRam_plain
  have shut : (m.after isolate).RunsIsolated during :=
    ⟨⟨by decide, rfl⟩, ⟨by decide, rfl⟩, ⟨by decide, rfl⟩, trivial⟩
  exact ⟨fresh, spares, shut,
    (isolation_after_run fresh spares isolate).2.2.2.2 during shut⟩

end Machine

end ConsoleBus
