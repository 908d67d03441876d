import ConsoleBus.Control.Execution
import ConsoleBus.Proofs.HandleAccess

/-!
Coherence of compiled code with memory. Three parties change memory: the bus, its handles and the
loads of saved states. A store on the bus voids the aligned word in which it begins
(`Effect.voidsAt_word`), and that is where it changes code unless it straddles two words
(`Machine.store_voids_iff`); a handle voids nothing; and a load of a state voids everything. The
moves of the execution side compose (`Execution.Leads.trans`), so `Execution.code_voided_after_run`
says for every step of every run which changes of code are voided by it, and `stale_code_bytes`
shows two that are not.
-/

namespace ConsoleBus

open PageTable

/-! ### Code and what voids it -/

/-- Code is compiled from RAM and from the parallel port. -/
def Region.HoldsCode (r : Region) : Prop := r = .ram ∨ r = .parallel

theorem Region.HoldsCode.ne_hardware {r : Region} (code : r.HoldsCode) : r ≠ .hardware := by
  rcases code with rfl | rfl <;> decide

theorem Region.HoldsCode.home_aligned {r : Region} (code : r.HoldsCode) : r.home % 4 = 0 := by
  rcases code with rfl | rfl <;> rfl

/-- The effect voids what was compiled from the byte here: all code is void, or one of the bytes of
the words that are has this one's canonical address. -/
def Effect.VoidsAt (loc : Location) : Effect → Prop
  | .invalidatedAll => True
  | .invalidated addr words =>
    ∃ i < 4 * words, (canonical (addr + UInt32.ofNat i)).toNat = loc.region.home + loc.offset
  | _ => False

/-- The register handler writes nothing into memory that holds code. -/
def RegisterHandler.SparesCode (r : RegisterHandler) : Prop :=
  ∀ (m : Memory) (addr : Address) (w : Width) (value : UInt32) (loc : Location),
    loc.region.HoldsCode → (r.write m addr w value).byte loc = m.byte loc

theorem RegisterHandler.sparesCode_plain : plain.SparesCode := by
  intro m addr w value loc code
  exact m.byte_write_of_not_covers fun covered => code.ne_hardware covered.1

variable {addr : Address} {loc : Location}

/-- The bytes of the aligned word that an address is in fold onto the word that it folds into. -/
theorem canonical_word (addr : Address) {i : Nat} (hi : i < 4) :
    (canonical (addr / 4 * 4 + UInt32.ofNat i)).toNat = (canonical addr).toNat / 4 * 4 + i := by
  have place : (addr / 4 * 4 + UInt32.ofNat i).toNat = addr.toNat / 4 * 4 + i := by
    have bound := addr.toNat_lt
    rw [UInt32.toNat_add, UInt32.toNat_mul, UInt32.toNat_div, UInt32.toNat_ofNat']
    simp only [UInt32.reduceToNat]
    omega
  -- folding takes off multiples of the size of RAM, so it leaves the place within a word alone
  have whole := canonical_cases addr
  have part := canonical_cases (addr / 4 * 4 + UInt32.ofNat i)
  rw [place] at part
  omega

/-- The word that a store voids is the one in which it begins. -/
theorem Effect.voidsAt_word {start : Location} (code : loc.region.HoldsCode)
    (same : loc.region = start.region)
    (place : (canonical addr).toNat = start.region.home + start.offset) :
    (Effect.invalidated (addr / 4 * 4) 1).VoidsAt loc ↔ loc.offset / 4 = start.offset / 4 := by
  have aligned := code.home_aligned
  rw [same] at aligned
  rw [Effect.VoidsAt, same]
  constructor
  · rintro ⟨i, hi, at'⟩
    rw [canonical_word addr hi, place] at at'
    omega
  · intro word
    refine ⟨loc.offset % 4, Nat.mod_lt _ (by decide), ?_⟩
    rw [canonical_word addr (Nat.mod_lt _ (by decide)), place]
    omega

namespace Bus

variable {b : Bus}

/-- A store that changes a byte of code has put its bytes over it, through a page. -/
theorem store_changes_code (h : b.isolation.Coherent) (spares : b.registers.SparesCode)
    (code : loc.region.HoldsCode) {w : Width} {value : UInt32}
    (changed : (b.store addr w value).1.memory.byte loc ≠ b.memory.byte loc) :
    ∃ start seen, powerOnWrite.locate addr = .ok start ∧ Memory.Covers start w.bytes loc ∧
      (b.store addr w value).2 =
        [.observed addr w.bytes seen, .invalidated (addr / 4 * 4) 1] := by
  rcases b.store_cases addr w value with ⟨-, stored⟩ | ⟨start, after, target, rfl, stored⟩ |
    ⟨-, -, ⟨-, -, stored⟩ | ⟨-, -, stored⟩ | ⟨-, stored⟩⟩
  all_goals rw [stored] at changed
  · exact absurd (spares b.memory addr w value loc code) changed
  · have located := (h.locate_iff.1 (target?_eq_some_iff.1 target).1).1
    have covered : Memory.Covers start w.bytes loc := by
      by_contra clear
      refine changed ?_
      rw [memory_putAt]
      exact b.memory.byte_write_of_not_covers (by rwa [Bytes.length_toLE])
    have page : classify addr = .table := by
      rcases locate_eq_ok_iff.1 located with ⟨-, scratchpad⟩ | ⟨page, -⟩
      · exact absurd (covered.1.trans scratchpad) code.ne_hardware
      · exact page
    rw [stored, if_pos page]
    exact ⟨start, _, located, covered, rfl⟩
  all_goals exact absurd rfl changed

/-- A handle voids nothing. -/
theorem not_voidsAt_storeByHandle (b : Bus) (addr : Address) (value : UInt8) :
    ∀ effect ∈ (b.storeByHandle addr value).2.2, ¬ effect.VoidsAt loc := by
  rw [storeByHandle]
  cases powerOnWrite.locate addr with
  | error e => exact List.forall_mem_nil _
  | ok start =>
    simp only
    split
    · exact List.forall_mem_nil _
    · intro effect member
      rw [List.mem_singleton.1 member]
      exact not_false

end Bus

/-! ### Commands -/

/-- The command is a load or a store on the bus. -/
def Command.OnBus : Command → Prop
  | .load .. | .store .. => True
  | _ => False

/-- The command is a load, or a store of bytes that lie in one aligned word. -/
def Command.InWord : Command → Prop
  | .load .. => True
  | .store w addr _ => addr.toNat % 4 + w.bytes ≤ 4
  | _ => False

/-- Every byte of code that differs afterwards has been voided. -/
def Voided (m m' : Machine) (effects : List Effect) : Prop :=
  ∀ loc : Location, loc.region.HoldsCode → m'.bus.memory.byte loc ≠ m.bus.memory.byte loc →
    ∃ effect ∈ effects, effect.VoidsAt loc

namespace Voided

variable {m m' m'' : Machine} {effects more : List Effect}

theorem refl (same : m'.bus.memory = m.bus.memory) (effects : List Effect) :
    Voided m m' effects := by
  intro loc _ changed
  rw [same] at changed
  exact absurd rfl changed

theorem trans (first : Voided m m' effects) (second : Voided m' m'' more) :
    Voided m m'' (effects ++ more) := by
  intro loc code changed
  by_cases earlier : m'.bus.memory.byte loc = m.bus.memory.byte loc
  · obtain ⟨effect, member, voids⟩ := second loc code (by rwa [earlier])
    exact ⟨effect, List.mem_append_right _ member, voids⟩
  · obtain ⟨effect, member, voids⟩ := first loc code earlier
    exact ⟨effect, List.mem_append_left _ member, voids⟩

theorem of_invalidatedAll (all : .invalidatedAll ∈ effects) : Voided m m' effects :=
  fun _ _ _ => ⟨_, all, trivial⟩

end Voided

/-- Memory is blank at power-on. -/
theorem Memory.byte_zeroed (loc : Location) : zeroed.byte loc = 0 := by
  obtain ⟨region, offset⟩ := loc
  cases region <;> simp [byte, zeroed, filled, Memory.region, Backing.get_filled]

namespace Machine

variable {m : Machine} {specs : List HookSpec}

theorem effects_store (m : Machine) (w : Width) (addr : Address) (value : UInt32) :
    (m.perform (.store w addr value)).2.2 = (m.bus.store addr w (w.narrow value)).2 := rfl

/-- A store on the bus voids a byte of code that it changes just where this is in the word in which
the store begins. -/
theorem store_voids_iff (hm : m.Serves specs) (spares : m.bus.registers.SparesCode)
    (code : loc.region.HoldsCode) {w : Width} {value : UInt32}
    (changed : (m.next (.store w addr value)).bus.memory.byte loc ≠ m.bus.memory.byte loc) :
    ∃ start, powerOnWrite.locate addr = .ok start ∧ Memory.Covers start w.bytes loc ∧
      ((∃ effect ∈ (m.perform (.store w addr value)).2.2, effect.VoidsAt loc) ↔
        loc.offset / 4 = start.offset / 4) := by
  rw [next_store, bus_hear] at changed
  obtain ⟨start, seen, located, covered, effects⟩ :=
    Bus.store_changes_code hm.isolation spares code changed
  have place := (canonical_of_locate (locate_powerOnRead_of_write located)).1
  have word := Effect.voidsAt_word code covered.1 place
  refine ⟨start, located, covered, ?_⟩
  rw [effects_store, effects, ← word]
  constructor
  · rintro ⟨effect, member, voids⟩
    rcases List.mem_pair.1 member with rfl | rfl
    · exact voids.elim
    · exact voids
  · intro voids
    exact ⟨_, List.mem_cons_of_mem _ List.mem_cons_self, voids⟩

/-- A byte of a store is found where the store puts it. -/
theorem byte_of_place (hm : m.Serves specs) {c : Command} {bytes : Bytes}
    (hp : c.place? = some (addr, bytes)) {start : Location}
    (target : m.bus.target? addr bytes.length = some start) {i : Nat} {v : UInt8}
    (at' : bytes[i]? = some v) :
    (m.next c).bus.memory.byte ⟨start.region, start.offset + i⟩ = v := by
  have backed : classify addr ≠ .hardwareRegister := by
    intro register
    rw [Bus.target?_register register] at target
    cases target
  have fits := (Bus.target?_eq_some_iff.1 target).2
  rw [memory_of_place hm hp backed, target]
  simp only
  rw [m.bus.memory.byte_write_eq (l := ⟨start, bytes⟩) fits]
  simp [Landing.byte?, at']

/-- A byte that is not zero is a change to blank memory. -/
theorem byte_differs (hm : m.Serves specs) (blank : m.bus.memory = .zeroed) {c : Command}
    {bytes : Bytes} (hp : c.place? = some (addr, bytes)) {start : Location}
    (target : m.bus.target? addr bytes.length = some start) {i : Nat} {v : UInt8}
    (at' : bytes[i]? = some v) (new : v ≠ 0) :
    (m.next c).bus.memory.byte ⟨start.region, start.offset + i⟩ ≠
      m.bus.memory.byte ⟨start.region, start.offset + i⟩ := by
  rw [byte_of_place hm hp target at', blank, Memory.byte_zeroed]
  exact new

/-- Bytes in one aligned word stay in it where they are located. -/
theorem inWord_place {start : Location} (located : powerOnWrite.locate addr = .ok start)
    (code : start.region.HoldsCode) {n : Nat} (within : addr.toNat % 4 + n ≤ 4)
    (covered : Memory.Covers start n loc) : loc.offset / 4 = start.offset / 4 := by
  have place := (canonical_of_locate (locate_powerOnRead_of_write located)).1
  have aligned := code.home_aligned
  have folded := canonical_cases addr
  obtain ⟨-, low, high⟩ := covered
  omega

theorem voided_next (hm : m.Serves specs) (spares : m.bus.registers.SparesCode) {c : Command}
    (within : c.InWord) : Voided m (m.next c) (m.perform c).2.2 := by
  cases c with
  | load w addr => exact Voided.refl (m.bus.load_keeps addr w).1 _
  | store w addr value =>
    intro loc code changed
    obtain ⟨start, located, covered, voids⟩ := store_voids_iff hm spares code changed
    exact voids.2 (inWord_place located (covered.1 ▸ code) within covered)
  | _ => exact within.elim

/-- A run of such commands voids all the code that it changes. -/
theorem voided_after (hm : m.Serves specs) (spares : m.bus.registers.SparesCode) {cs : List Command}
    (within : ∀ c ∈ cs, c.InWord) : Voided m (m.after cs) (m.performAll cs).2.2 := by
  induction cs generalizing m with
  | nil => exact Voided.refl rfl _
  | cons c cs ih =>
    obtain ⟨first, others⟩ := List.forall_mem_cons.1 within
    exact (voided_next hm spares first).trans (ih (hm.next c) (by rwa [registers_next]) others)

end Machine

/-! ### The execution side -/

/-- In a slice the processor issues commands of this kind, and reaches the machine in no other
way. -/
def Cpu.Issues {κ : Type} (cpu : Cpu κ) (kind : Command → Prop) : Prop :=
  ∀ core m, ∃ cs : List Command, (∀ c ∈ cs, kind c) ∧
    (cpu.slice core m).machine = m.after cs ∧ (cpu.slice core m).effects = (m.performAll cs).2.2

/-- Of the machine a load changes at most what is in memory, and that only if it succeeds; a save
changes nothing. -/
structure StateStore.Careful {σ : Type} (store : StateStore σ) : Prop where
  memory : ∀ s d m files, ∃ f, (store.perform s d m files).machine = m.mapMemory f
  kept : ∀ s d m files, ¬ ((store.perform s d m files).outcome.isOk = true ∧ d.kind = .load) →
    (store.perform s d m files).machine = m

theorem ImageStore.careful_asStateStore : asStateStore.Careful := by
  have perform (s : ImageStore) (d : Deferred) (m : Machine) (files : FileTree) :
      (asStateStore.perform s d m files).machine = m ∨
        ((asStateStore.perform s d m files).outcome.isOk = true ∧ d.kind = .load) ∧
          ∃ f, (asStateStore.perform s d m files).machine = m.mapMemory f := by
    simp only [asStateStore]
    cases kind : d.kind with
    | save => exact .inl rfl
    | load =>
      cases s.load d.path m.bus.memory files with
      | error e => exact .inl rfl
      | ok memory => exact .inr ⟨⟨rfl, rfl⟩, fun _ => memory, rfl⟩
  refine ⟨fun s d m files => ?_, fun s d m files other => ?_⟩
  · rcases perform s d m files with same | ⟨-, mapped⟩
    · exact ⟨id, same⟩
    · exact mapped
  · rcases perform s d m files with same | ⟨loaded, -⟩
    · exact same
    · exact absurd loaded other

theorem Plane.statuses_aside (p : Plane) (ss : List Status) :
    (p.statuses ss).machine.bus = p.machine.bus ∧
      (p.statuses ss).machine.registry = p.machine.registry := by
  induction ss generalizing p with
  | nil => exact ⟨rfl, rfl⟩
  | cons s ss ih => exact ih (p.status s)

namespace Execution

variable {κ σ : Type} {e : Execution κ σ} {p : Plane} {specs : List HookSpec}

/-- Everybody who reaches the machine keeps to the rules. -/
structure Steady (e : Execution κ σ) (p : Plane) (specs : List HookSpec) : Prop where
  machine : p.machine.Serves specs
  registers : p.machine.bus.registers.SparesCode
  cpu : e.cpu.Issues Command.OnBus
  store : e.store.Careful

/-- Moves have led from here to there: still under the rules, with every change of code voided if
stores stay within words, and with all code void if something was loaded. -/
structure Leads (specs : List HookSpec) (e : Execution κ σ) (p : Plane) (next : Running κ σ) :
    Prop where
  steady : next.execution.Steady next.plane specs
  cpu : next.execution.cpu = e.cpu
  voided : e.cpu.Issues Command.InWord → Voided p.machine next.plane.machine next.effects
  loaded : e.summary.loads < next.execution.summary.loads → .invalidatedAll ∈ next.effects

namespace Leads

variable {next later : Running κ σ}

theorem trans (first : Leads specs e p next)
    (second : Leads specs next.execution next.plane later) :
    Leads specs e p { later with effects := next.effects ++ later.effects } where
  steady := second.steady
  cpu := second.cpu.trans first.cpu
  voided within := (first.voided within).trans (second.voided (by rwa [first.cpu]))
  loaded more := by
    rcases Nat.lt_or_ge e.summary.loads next.execution.summary.loads with now | not_yet
    · exact List.mem_append_left _ (first.loaded now)
    · exact List.mem_append_right _ (second.loaded (Nat.lt_of_le_of_lt not_yet more))

/-- A move that leaves the machine's bus and registry alone. -/
theorem of_aside (steady : e.Steady p specs) {e' : Execution κ σ} {p' : Plane}
    (cpu : e'.cpu = e.cpu) (store : e'.store = e.store) (loads : e'.summary.loads = e.summary.loads)
    (bus : p'.machine.bus = p.machine.bus) (registry : p'.machine.registry = p.machine.registry) :
    Leads specs e p ⟨e', p', []⟩ where
  steady := by
    refine ⟨⟨?_, ?_⟩, ?_, ?_, ?_⟩
    · rw [bus]
      exact steady.machine.isolation
    · rw [registry]
      exact steady.machine.registry
    · rw [bus]
      exact steady.registers
    · rw [cpu]
      exact steady.cpu
    · rw [store]
      exact steady.store
  cpu := cpu
  voided _ := Voided.refl (congrArg Bus.memory bus) _
  loaded more := absurd loads (Nat.ne_of_gt more)

end Leads

/-- What a save or load does, with all code void after a load. -/
theorem Steady.carryOut (steady : e.Steady p specs) (d : Deferred) :
    Leads specs e p (e.carryOut p d) := by
  obtain ⟨f, mapped⟩ := steady.store.memory e.storage d p.machine p.host.files
  have kept := steady.store.kept e.storage d p.machine p.host.files
  simp only [Execution.carryOut]
  generalize e.store.perform e.storage d p.machine p.host.files = result at mapped kept ⊢
  refine ⟨⟨?_, ?_, steady.cpu, steady.store⟩, rfl, fun _ => ?_, fun more => ?_⟩
  · rw [mapped]
    exact ⟨steady.machine.isolation, steady.machine.registry⟩
  · rw [mapped]
    exact steady.registers
  · by_cases done : result.outcome.isOk = true ∧ d.kind = .load
    · refine Voided.of_invalidatedAll (List.mem_append_right _ ?_)
      simp [done]
    · exact Voided.refl (congrArg (fun m => m.bus.memory) (kept done)) _
  · -- only a load that succeeded counts as one
    refine List.mem_append_right _ ?_
    cases succeeded : result.outcome.isOk <;> cases kind : d.kind <;>
      simp [ExecutionSummary.count, succeeded, kind] at more ⊢

theorem Steady.runSlice (steady : e.Steady p specs) : Leads specs e p (e.runSlice p) := by
  have kept : (e.runSlice p).execution.cpu = e.cpu ∧ (e.runSlice p).execution.store = e.store ∧
      (e.runSlice p).execution.summary.loads = e.summary.loads := by
    simp only [Execution.runSlice]
    split <;> exact ⟨rfl, rfl, rfl⟩
  obtain ⟨cpu, store, loads⟩ := kept
  obtain ⟨cs, -, machine, -⟩ := steady.cpu e.core p.machine
  have came : (e.runSlice p).plane.machine = p.machine.after cs := machine
  refine ⟨⟨?_, ?_, cpu ▸ steady.cpu, store ▸ steady.store⟩, cpu, ?_, ?_⟩
  · rw [came]
    exact steady.machine.after cs
  · rw [came, Machine.registers_after]
    exact steady.registers
  · intro within
    obtain ⟨ds, inWord, machine, effects⟩ := within e.core p.machine
    have voided := Machine.voided_after steady.machine steady.registers inWord
    rw [← machine, ← effects] at voided
    exact voided
  · intro more
    exact absurd loads (Nat.ne_of_gt more)

/-- A move of the execution side. -/
theorem Steady.step (steady : e.Steady p specs) : Leads specs e p (e.step p) := by
  unfold Execution.step
  cases e.phase with
  | between =>
    simp only
    split
    · exact .of_aside steady rfl rfl rfl rfl rfl
    · exact .of_aside steady rfl rfl rfl rfl rfl
  | gate phase =>
    obtain ⟨bus, registry⟩ := Plane.statuses_aside
      { p with run := (p.run.advance phase).1 } (p.run.advance phase).2.2.toList
    exact .of_aside steady rfl rfl rfl bus registry
  | deferred =>
    simp only
    split
    · exact .of_aside steady rfl rfl rfl rfl rfl
    · exact .of_aside steady rfl rfl rfl rfl rfl
  | storing d => exact steady.carryOut d
  | slice => exact steady.runSlice
  | stopped => exact .of_aside steady rfl rfl rfl rfl rfl
  | crashed => exact .of_aside steady rfl rfl rfl rfl rfl

theorem Steady.settleWithin (steady : e.Steady p specs) (moves : Nat) :
    Leads specs e p (e.settleWithin p moves) := by
  induction moves generalizing e p with
  | zero => exact .of_aside steady rfl rfl rfl rfl rfl
  | succ moves ih =>
    rw [Execution.settleWithin]
    split
    · exact .of_aside steady rfl rfl rfl rfl rfl
    · exact steady.step.trans (ih steady.step.steady)

theorem Steady.visit (steady : e.Steady p specs) (requests : List RunRequest) :
    Leads specs e p ⟨e, (e.visit p requests).1, []⟩ := by
  unfold Execution.visit
  split
  · exact .of_aside steady rfl rfl rfl rfl rfl
  · exact .of_aside steady rfl rfl rfl rfl rfl

/-- A whole tick. -/
theorem Steady.tick (steady : e.Steady p specs) (requests : List RunRequest) :
    Leads specs e p (e.tick p requests).running := by
  have arrived := steady.settleWithin longestWay
  have visited := arrived.steady.visit requests
  have ready := visited.steady.settleWithin longestWay
  have before := arrived.trans (visited.trans ready)
  rw [Execution.tick]
  refine before.trans ?_
  split
  · exact ready.steady.step
  · exact .of_aside ready.steady rfl rfl rfl rfl rfl

/-! ### Runs -/

theorem Steady.runFor (steady : e.Steady p specs) (requests : List RunRequest) (ticks : Nat) :
    Leads specs e p (e.runFor p requests ticks).running := by
  induction ticks generalizing e p with
  | zero => exact .of_aside steady rfl rfl rfl rfl rfl
  | succ ticks ih =>
    have first := steady.tick requests
    simp only [Execution.runFor]
    split
    · exact first.trans (ih first.steady)
    · exact first

/-- Actions of others keep to the rules as well. -/
theorem Steady.perform (steady : e.Steady p specs) (a : Action) :
    e.Steady (p.perform a).2.1 specs := by
  obtain ⟨machine, registers, cpu, store⟩ := steady
  cases a with
  | command c =>
    refine ⟨machine.next c, ?_, cpu, store⟩
    have same := p.machine.registers_next c
    exact same ▸ registers
  | finishRecording => exact ⟨⟨machine.isolation, machine.registry⟩, registers, cpu, store⟩
  | _ => exact ⟨machine, registers, cpu, store⟩

theorem Steady.performAll (steady : e.Steady p specs) (actions : List Action) :
    e.Steady (p.performAll actions).2.1 specs := by
  induction actions generalizing p with
  | nil => exact steady
  | cons a actions ih => exact ih (steady.perform a)

theorem Steady.take (steady : e.Steady p specs) (s : ExecutionStep) :
    (e.take p s).1.running.execution.Steady (e.take p s).1.running.plane specs ∧
      (e.take p s).1.running.execution.cpu = e.cpu := by
  cases s with
  | tick requests =>
    have ticked := steady.tick requests
    exact ⟨ticked.steady, ticked.cpu⟩
  | run requests actions =>
    have ran := steady.runFor requests e.ticksLeft
    exact ⟨ran.steady.performAll actions, ran.cpu⟩
  | act a => exact ⟨steady.perform a, rfl⟩

/-- The execution side and its plane after some steps. -/
def afterSteps (e : Execution κ σ) (p : Plane) : List ExecutionStep → Execution κ σ × Plane
  | [] => (e, p)
  | s :: steps =>
    let t := (e.take p s).1.running
    t.execution.afterSteps t.plane steps

theorem Steady.afterSteps (steady : e.Steady p specs) (steps : List ExecutionStep) :
    (e.afterSteps p steps).1.Steady (e.afterSteps p steps).2 specs ∧
      (e.afterSteps p steps).1.cpu = e.cpu := by
  induction steps generalizing e p with
  | nil => exact ⟨steady, rfl⟩
  | cons s steps ih =>
    obtain ⟨now, cpu⟩ := steady.take s
    obtain ⟨later, cpu'⟩ := ih now
    exact ⟨later, cpu'.trans cpu⟩

/-- The step changes the byte here. -/
def Changes (e : Execution κ σ) (p : Plane) (s : ExecutionStep) (loc : Location) : Prop :=
  (e.take p s).1.running.plane.machine.bus.memory.byte loc ≠ p.machine.bus.memory.byte loc

/-- The step voids what was compiled from the byte here. -/
def Voids (e : Execution κ σ) (p : Plane) (s : ExecutionStep) (loc : Location) : Prop :=
  ∃ effect ∈ (e.take p s).1.running.effects, effect.VoidsAt loc

/-- The step carries out a load that succeeds. -/
def Loads (e : Execution κ σ) (p : Plane) (s : ExecutionStep) : Prop :=
  e.summary.loads < (e.take p s).1.running.execution.summary.loads

/-- Which changes of code void what was compiled from it, after any run. A store on the bus that
changes a byte of code voids it just where the byte is in the aligned word in which the store
begins; a handle voids nothing, whatever it changes; and a tick voids every byte of code that it
changes if it loads a state or the processor stores within words. -/
theorem code_voided_after_run (machine : p.machine.Fresh specs)
    (registers : p.machine.bus.registers.SparesCode) (cpu : e.cpu.Issues Command.OnBus)
    (store : e.store.Careful) (run : List ExecutionStep) (code : loc.region.HoldsCode) :
    let now := (e.afterSteps p run).1
    let plane := (e.afterSteps p run).2
    (∀ w addr value, now.Changes plane (.act (.command (.store w addr value))) loc →
      ∃ start, powerOnWrite.locate addr = .ok start ∧ Memory.Covers start w.bytes loc ∧
        (now.Voids plane (.act (.command (.store w addr value))) loc ↔
          loc.offset / 4 = start.offset / 4)) ∧
    (∀ addr value, ¬ now.Voids plane (.act (.command (.handleWrite addr value))) loc) ∧
    ∀ requests, now.Changes plane (.tick requests) loc →
      now.Loads plane (.tick requests) ∨ e.cpu.Issues Command.InWord →
        now.Voids plane (.tick requests) loc := by
  intro now plane
  have start : e.Steady p specs := ⟨machine.serves, registers, cpu, store⟩
  obtain ⟨steady, same⟩ := start.afterSteps run
  refine ⟨?_, ?_, ?_⟩
  · -- a store on the bus
    intro w addr value changed
    exact Machine.store_voids_iff steady.machine steady.registers code changed
  · -- a store through a handle
    rintro addr value ⟨effect, member, voids⟩
    exact plane.machine.bus.not_voidsAt_storeByHandle addr value effect member voids
  · -- a tick
    intro requests changed settled
    have ticked := steady.tick requests
    rcases settled with loads | within
    · exact ⟨_, ticked.loaded loads, trivial⟩
    · exact ticked.voided (same ▸ within) loc code changed

/-- A word that is stored to the parallel port is void, and so is what a slice changes in RAM. -/
theorem parallel_word_voided :
    let half : Command := .store .half 0xa0000102 7
    let cpu : Cpu Unit := ⟨fun _ m => ⟨(), m.after [half], (m.performAll [half]).2.2, false⟩⟩
    let e : Execution Unit ImageStore :=
      { cpu, store := ImageStore.asStateStore, core := (), storage := {} }
    let p : Plane := {}
    let word : ExecutionStep := .act (.command (.store .word 0x1f000100 0x5000000))
    p.machine.Fresh [] ∧ p.machine.bus.registers.SparesCode ∧ cpu.Issues Command.OnBus ∧
      e.store.Careful ∧ cpu.Issues Command.InWord ∧
      (e.Changes p word ⟨.parallel, 0x103⟩ ∧ e.Voids p word ⟨.parallel, 0x103⟩) ∧
      e.Changes p (.tick []) ⟨.ram, 0x102⟩ ∧ e.Voids p (.tick []) ⟨.ram, 0x102⟩ := by
  intro half cpu e p word
  have fresh : p.machine.Fresh [] := ⟨rfl, rfl⟩
  have spares : p.machine.bus.registers.SparesCode := RegisterHandler.sparesCode_plain
  have careful : e.store.Careful := ImageStore.careful_asStateStore
  have onBus : cpu.Issues Command.OnBus :=
    fun _ _ => ⟨[half], List.forall_mem_singleton.2 trivial, rfl, rfl⟩
  have within : cpu.Issues Command.InWord := by
    have short : (0xa0000102 : Address).toNat % 4 + Width.half.bytes ≤ 4 := by decide
    exact fun _ _ => ⟨[half], List.forall_mem_singleton.2 short, rfl, rfl⟩
  have wordTarget : p.machine.bus.target? 0x1f000100 4 = some ⟨.parallel, 0x100⟩ := by decide
  have wordChanged : e.Changes p word ⟨.parallel, 0x103⟩ :=
    Machine.byte_differs (c := .store .word 0x1f000100 0x5000000) (i := 3) (v := 5) fresh.serves rfl
      rfl wordTarget (by decide) (by decide)
  have halfTarget : p.machine.bus.target? 0xa0000102 2 = some ⟨.ram, 0x102⟩ := by decide
  have halfChanged : e.Changes p (.tick []) ⟨.ram, 0x102⟩ :=
    Machine.byte_differs (c := half) (i := 0) (v := 7) fresh.serves rfl rfl halfTarget (by decide)
      (by decide)
  have inParallel : (Location.mk .parallel 0x103).region.HoldsCode := .inr rfl
  have inRam : (Location.mk .ram 0x102).region.HoldsCode := .inl rfl
  obtain ⟨stores, -, -⟩ := code_voided_after_run fresh spares onBus careful [] inParallel
  obtain ⟨-, -, ticks⟩ := code_voided_after_run fresh spares onBus careful [] inRam
  obtain ⟨start, located, -, voids⟩ := stores .word 0x1f000100 0x5000000 wordChanged
  have place : powerOnWrite.locate 0x1f000100 = .ok ⟨.parallel, 0x100⟩ := by decide
  rw [place] at located
  cases located
  exact ⟨fresh, spares, onBus, careful, within, ⟨wordChanged, voids.2 rfl⟩, halfChanged,
    ticks [] halfChanged (.inr within)⟩

end Execution

/-- A byte that a handle stores, and the upper half of a word that straddles two, are changed
without a sign to the holder of compiled code. -/
theorem stale_code_bytes :
    let m : Machine := {}
    let byte : Command := .handleWrite 256 5
    let word : Command := .store .word 0x80001006 0xffffffff
    ((m.next byte).bus.memory.byte ⟨.ram, 256⟩ ≠ m.bus.memory.byte ⟨.ram, 256⟩ ∧
        ∀ effect ∈ (m.perform byte).2.2, ¬ effect.VoidsAt ⟨.ram, 256⟩) ∧
      (m.next word).bus.memory.byte ⟨.ram, 0x1008⟩ ≠ m.bus.memory.byte ⟨.ram, 0x1008⟩ ∧
        ∀ effect ∈ (m.perform word).2.2, ¬ effect.VoidsAt ⟨.ram, 0x1008⟩ := by
  intro m byte word
  have hm : m.Serves [] := Machine.Fresh.serves ⟨rfl, rfl⟩
  have byteTarget : m.bus.target? 256 1 = some ⟨.ram, 256⟩ := by decide
  have byteChanged := Machine.byte_differs (c := byte) (i := 0) (v := 5) hm rfl rfl byteTarget rfl
    (by decide)
  have wordTarget : m.bus.target? 0x80001006 4 = some ⟨.ram, 0x1006⟩ := by decide
  have wordChanged := Machine.byte_differs (c := word) (i := 2) (v := 0xff) hm rfl rfl wordTarget
    (by decide) (by decide)
  obtain ⟨start, located, -, voids⟩ :=
    Machine.store_voids_iff hm RegisterHandler.sparesCode_plain (.inl rfl) wordChanged
  refine ⟨⟨byteChanged, ?_⟩, wordChanged, fun effect member void => ?_⟩
  · exact m.bus.not_voidsAt_storeByHandle 256 5
  · have place : powerOnWrite.locate 0x80001006 = .ok ⟨.ram, 0x1006⟩ := by decide
    rw [place] at located
    cases located
    exact absurd (voids.1 ⟨effect, member, void⟩) (by decide)

end ConsoleBus
