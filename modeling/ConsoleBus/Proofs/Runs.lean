import ConsoleBus.Machine.Command
import ConsoleBus.Proofs.Landing
import ConsoleBus.Proofs.Roster

/-!
Runs of a machine. To the hooks a command is one of five stimuli (`Machine.stimulus`), and each hook
responds to it by itself (`Hook.respond`). One command therefore moves the registry by one step and
reports the events of that step (`Machine.next_spec`); a run reports the log of its commands
(`Machine.notifier_after`).
-/

namespace ConsoleBus

/-! ### Stimuli -/

/-- What a command means to the hooks. -/
inductive Stimulus where
  | quiet
  /-- A store of `width` bytes reached memory. -/
  | stored (addr : Address) (width : Nat)
  | flushed
  | silenced (key : UInt8)
  | unsilenced (key : UInt8)
  deriving DecidableEq

/-- The hook set to a state, if it is the one with this key. -/
def Hook.setIf (h : Hook) (key : UInt8) (state : HookState) : Hook :=
  if h.key = key then { h with state := state } else h

/-- A hook's response to a stimulus, given the memory after it. -/
def Hook.respond (h : Hook) (s : Stimulus) (m : Memory) : Hook × Option HookEvent :=
  match s with
  | .quiet => (h, none)
  | .stored addr width => h.onStore (canonical addr) width m
  | .flushed => h.flush m
  | .silenced key => (h.setIf key .silenced, none)
  | .unsilenced key => (h.setIf key .noChanges, none)

namespace Hook

variable {h : Hook}

@[simp] theorem blank_respond (h : Hook) (s : Stimulus) (m : Memory) :
    (h.respond s m).1.blank = h.blank := by
  cases s with
  | quiet => rfl
  | stored addr width => exact blank_onStore h _ width m
  | flushed => exact blank_flush h m
  | silenced key =>
    simp only [respond, setIf]
    split <;> rfl
  | unsilenced key =>
    simp only [respond, setIf]
    split <;> rfl

@[simp] theorem key_respond (h : Hook) (s : Stimulus) (m : Memory) :
    (h.respond s m).1.key = h.key :=
  (blank_eq_iff.1 (blank_respond h s m)).1

@[simp] theorem dedupe_respond (h : Hook) (s : Stimulus) (m : Memory) :
    (h.respond s m).1.dedupe = h.dedupe :=
  (blank_eq_iff.1 (blank_respond h s m)).2.2.2.1

@[simp] theorem coalesce_respond (h : Hook) (s : Stimulus) (m : Memory) :
    (h.respond s m).1.coalesce = h.coalesce :=
  (blank_eq_iff.1 (blank_respond h s m)).2.2.2.2

/-- What a hook emits carries its key and its bytes. -/
theorem touch_event {m : Memory} {e : HookEvent} (emitted : (h.touch m).2 = some e) :
    ∃ bytes, h.value m = .ok bytes ∧ e = h.event bytes := by
  unfold touch at emitted
  split at emitted
  · cases emitted
  · cases hv : h.value m with
    | error _ => simp [hv] at emitted
    | ok bytes =>
      simp only [hv] at emitted
      split at emitted
      · cases emitted
      · split at emitted
        · cases emitted
        · split at emitted
          · cases emitted
          · exact ⟨bytes, rfl, (Option.some.inj emitted).symm⟩

theorem flush_event {m : Memory} {e : HookEvent} (emitted : (h.flush m).2 = some e) :
    ∃ bytes, h.value m = .ok bytes ∧ e = h.event bytes := by
  unfold flush at emitted
  split at emitted
  · cases hv : h.value m with
    | error _ => simp [hv] at emitted
    | ok bytes =>
      simp only [hv] at emitted
      exact ⟨bytes, rfl, (Option.some.inj emitted).symm⟩
  · cases emitted

theorem respond_event {s : Stimulus} {m : Memory} {e : HookEvent}
    (emitted : (h.respond s m).2 = some e) :
    ∃ bytes, h.value m = .ok bytes ∧ e = h.event bytes := by
  cases s with
  | quiet => cases emitted
  | stored addr width =>
    simp only [respond, onStore] at emitted
    split at emitted
    · exact touch_event emitted
    · cases emitted
  | flushed => exact flush_event emitted
  | silenced key => cases emitted
  | unsilenced key => cases emitted

end Hook

/-- Whether a command changes storage directly, past the bus and its handles. -/
def Command.direct : Command → Bool
  | .loadBios _ | .reset | .fill .. | .poke .. => true
  | _ => false

/-- The bus after a command, as far as the command is a load or a store. -/
def Bus.serve (b : Bus) : Command → Bus
  | .load w addr => (b.load addr w).2.1
  | .store w addr value => (b.store addr w (w.narrow value)).1
  | .handleWrite addr value => (b.storeByHandle addr value).2.1
  | _ => b

theorem Bus.registers_serve (b : Bus) (c : Command) : (b.serve c).registers = b.registers := by
  cases c with
  | load w addr => exact (b.load_keeps addr w).2.2
  | store w addr value =>
    rw [serve]
    rcases b.store_cases addr w (w.narrow value) with
      ⟨-, stored⟩ | ⟨loc, after, -, rfl, stored⟩ |
        ⟨-, -, ⟨-, -, stored⟩ | ⟨-, -, stored⟩ | ⟨-, stored⟩⟩
    · rw [stored]
    · rw [stored, putAt]
    · rw [stored]
    · rw [stored]
    · rw [stored, missWrite]
  | handleWrite addr value =>
    rw [serve, storeByHandle]
    cases PageTable.powerOnWrite.locate addr with
    | error e => rfl
    | ok loc =>
      simp only
      split <;> rfl
  | _ => rfl

namespace Registry

/-- Every hook's response to a stimulus. -/
def respond (r : Registry) (s : Stimulus) (m : Memory) : Registry × List HookEvent :=
  r.step fun h => h.respond s m

theorem respond_quiet (r : Registry) (m : Memory) : r.respond .quiet m = (r, []) := by
  simp [respond, step, Hook.respond, Function.comp_def]

theorem setState_eq (r : Registry) (key : UInt8) (state : HookState) :
    (r.setState key state).1 = (r.step fun h => (h.setIf key state, none)).1 ∧
      (r.step fun h => (h.setIf key state, none)).2 = [] := by
  simp [setState, step, Hook.setIf, Function.comp_def]

end Registry

namespace Machine

variable {m : Machine} {specs : List HookSpec}

/-- What a command means to the hooks of a machine. -/
def stimulus (m : Machine) : Command → Stimulus
  | .store w addr _ => if (m.bus.target? addr w.bytes).isSome then .stored addr w.bytes else .quiet
  | .handleWrite addr _ => if (m.bus.target? addr 1).isSome then .stored addr 1 else .quiet
  | .evaluate addr width => .stored addr width
  | .flush => .flushed
  | .silence key => .silenced key
  | .unsilence key => .unsilenced key
  | _ => .quiet

/-- The machine after a command. -/
def next (m : Machine) (c : Command) : Machine := (m.perform c).2.1

/-- The events that a command makes the hooks report. -/
def events (m : Machine) (c : Command) : List HookEvent :=
  (m.registry.respond (m.stimulus c) (m.next c).bus.memory).2

/-- The isolation switch is in order, and the registry holds the hooks of this list. -/
structure Serves (m : Machine) (specs : List HookSpec) : Prop where
  isolation : m.bus.isolation.Coherent
  registry : m.registry.Serves specs

/-- A machine before its first command, with any contents of memory. -/
structure Fresh (m : Machine) (specs : List HookSpec) : Prop where
  isolation : m.bus.isolation = .powerOn
  registry : Registry.ofSpecs specs = .ok m.registry

theorem Fresh.serves (hm : m.Fresh specs) : m.Serves specs :=
  ⟨by rw [hm.isolation]; exact Isolation.coherent_powerOn,
    Registry.serves_of_ofSpecs hm.registry⟩

/-- A machine that watches one hook. -/
theorem fresh_register {spec : HookSpec} (admissible : spec.Admissible) :
    ({ registry := Registry.empty.register spec } : Machine).Fresh [spec] := by
  refine ⟨rfl, Registry.ofSpecs_eq_ok_iff.2 ⟨fun s hs => ?_, List.nodup_singleton _, rfl⟩⟩
  rwa [List.mem_singleton.1 hs]

/-! ### One command -/

/-- The hooks hear of the announced stores and of nothing else. -/
theorem hear_eq (m : Machine) (effects : List Effect) :
    m.hear effects =
      (effects.filterMap Effect.announced?).foldl (fun m p => m.evaluate p.1 p.2) m := by
  unfold hear
  induction effects generalizing m with
  | nil => rfl
  | cons effect effects ih =>
    rw [List.foldl_cons, ih]
    cases effect <;> rfl

theorem bus_hear (m : Machine) (effects : List Effect) : (m.hear effects).bus = m.bus := by
  rw [hear_eq]
  induction effects.filterMap Effect.announced? generalizing m with
  | nil => rfl
  | cons p ps ih => exact ih (m.evaluate p.1 p.2)

/-- What a machine does on hearing of a store, or of none. -/
theorem hear_spec {effects : List Effect} {addr : Address} {width : Nat} {landed : Bool}
    (heard : effects.filterMap Effect.announced? = if landed then [(addr, width)] else [])
    (hr : m.registry.Serves specs) :
    (m.hear effects).registry = (m.registry.respond
        (if landed then .stored addr width else .quiet) m.bus.memory).1 ∧
      (m.hear effects).notifier = m.notifier.report (m.registry.respond
        (if landed then .stored addr width else .quiet) m.bus.memory).2 := by
  rw [hear_eq, heard]
  cases landed with
  | false =>
    rw [if_neg Bool.false_ne_true, if_neg Bool.false_ne_true, Registry.respond_quiet]
    exact ⟨rfl, rfl⟩
  | true =>
    rw [if_pos rfl, if_pos rfl, List.foldl_cons, List.foldl_nil, evaluate, hr.evaluate_eq]
    exact ⟨rfl, rfl⟩

theorem next_store (m : Machine) (w : Width) (addr : Address) (value : UInt32) :
    m.next (.store w addr value) =
      { m with bus := (m.bus.store addr w (w.narrow value)).1 }.hear
        (m.bus.store addr w (w.narrow value)).2 := rfl

theorem next_handleWrite (m : Machine) (addr : Address) (value : UInt8) :
    m.next (.handleWrite addr value) =
      { m with bus := (m.bus.storeByHandle addr value).2.1 }.hear
        (m.bus.storeByHandle addr value).2.2 := rfl

theorem next_loadBios (m : Machine) (image : Bytes) :
    (m.next (.loadBios image)).registry = m.registry ∧
      (m.next (.loadBios image)).notifier = m.notifier ∧
      (m.next (.loadBios image)).bus.isolation = m.bus.isolation := by
  simp only [next, perform]
  cases m.bus.memory.loadBios image <;> exact ⟨rfl, rfl, rfl⟩

theorem next_poke (m : Machine) (region : Region) (offset : Nat) (bytes : Bytes) :
    (m.next (.poke region offset bytes)).registry = m.registry ∧
      (m.next (.poke region offset bytes)).notifier = m.notifier ∧
      (m.next (.poke region offset bytes)).bus.isolation = m.bus.isolation := by
  simp only [next, perform]
  split <;> exact ⟨rfl, rfl, rfl⟩

/-- A command that does not change storage directly reaches the bus as an access or not at all. -/
theorem bus_next (m : Machine) {c : Command} (indirect : c.direct = false) :
    (m.next c).bus = m.bus.serve c := by
  cases c with
  | store w addr value => rw [next_store, bus_hear, Bus.serve]
  | handleWrite addr value => rw [next_handleWrite, bus_hear, Bus.serve]
  | loadBios image => cases indirect
  | reset => cases indirect
  | fill region value => cases indirect
  | poke region offset bytes => cases indirect
  | _ => rfl

/-- The register handler stays the same. -/
theorem registers_next (m : Machine) (c : Command) : (m.next c).bus.registers = m.bus.registers := by
  by_cases indirect : c.direct = false
  · rw [bus_next m indirect, Bus.registers_serve]
  · cases c with
    | loadBios image =>
      simp only [next, perform]
      cases m.bus.memory.loadBios image <;> rfl
    | poke region offset bytes =>
      simp only [next, perform]
      split <;> rfl
    | reset => rfl
    | fill region value => rfl
    | _ => exact absurd rfl indirect

/-- A command that the hooks do not notice leaves them and the channel alone. -/
theorem next_quiet {c : Command} (quiet : m.stimulus c = .quiet)
    (registry : (m.next c).registry = m.registry) (notifier : (m.next c).notifier = m.notifier) :
    (m.next c).registry = (m.registry.respond (m.stimulus c) (m.next c).bus.memory).1 ∧
      (m.next c).notifier = m.notifier.report (m.events c) := by
  unfold events
  rw [quiet, Registry.respond_quiet]
  exact ⟨registry, notifier⟩

/-- One command moves the hooks by one step, and reports the events of that step. -/
theorem next_spec (hm : m.Serves specs) (c : Command) :
    (m.next c).registry = (m.registry.respond (m.stimulus c) (m.next c).bus.memory).1 ∧
      (m.next c).notifier = m.notifier.report (m.events c) := by
  cases c with
  | store w addr value =>
    unfold events
    rw [next_store, bus_hear]
    exact hear_spec (m.bus.announced_store addr w (w.narrow value)) hm.registry
  | handleWrite addr value =>
    unfold events
    rw [next_handleWrite, bus_hear]
    exact hear_spec (Bus.storeByHandle_spec hm.isolation addr value).2.1 hm.registry
  | evaluate addr width =>
    have same := hm.registry.evaluate_eq addr width m.bus.memory
    unfold events next
    simp only [perform, evaluate, same]
    exact ⟨rfl, rfl⟩
  | flush => exact ⟨rfl, rfl⟩
  | silence key =>
    obtain ⟨moved, silent⟩ := m.registry.setState_eq key .silenced
    refine ⟨moved, ?_⟩
    unfold events
    rw [show (m.registry.respond (m.stimulus (.silence key)) _).2 = [] from silent]
    rfl
  | unsilence key =>
    obtain ⟨moved, silent⟩ := m.registry.setState_eq key .noChanges
    refine ⟨moved, ?_⟩
    unfold events
    rw [show (m.registry.respond (m.stimulus (.unsilence key)) _).2 = [] from silent]
    rfl
  | loadBios image =>
    obtain ⟨registry, notifier, -⟩ := next_loadBios m image
    exact next_quiet rfl registry notifier
  | poke region offset bytes =>
    obtain ⟨registry, notifier, -⟩ := next_poke m region offset bytes
    exact next_quiet rfl registry notifier
  | _ => exact next_quiet rfl rfl rfl

/-- A command leaves the isolation switch alone or has it obey one control value. -/
theorem isolation_next (hm : m.Serves specs) (c : Command) :
    (m.next c).bus.isolation = m.bus.isolation ∨
      ∃ value, (m.next c).bus.isolation = (m.bus.isolation.apply value).1 := by
  cases c with
  | store w addr value =>
    rw [next_store, bus_hear]
    rcases m.bus.isolation_store addr w (w.narrow value) with same | obeyed
    · exact .inl same
    · exact .inr ⟨_, obeyed⟩
  | handleWrite addr value =>
    rw [next_handleWrite, bus_hear]
    exact .inl (Bus.storeByHandle_spec hm.isolation addr value).2.2
  | load w addr => exact .inl (m.bus.load_keeps addr w).2.1
  | loadBios image => exact .inl (next_loadBios m image).2.2
  | poke region offset bytes => exact .inl (next_poke m region offset bytes).2.2
  | _ => exact .inl rfl

/-- A machine goes on serving its hook list. -/
theorem Serves.next (hm : m.Serves specs) (c : Command) : (m.next c).Serves specs := by
  refine ⟨?_, ?_⟩
  · rcases isolation_next hm c with same | ⟨value, obeyed⟩
    · rw [same]
      exact hm.isolation
    · rw [obeyed]
      exact Isolation.coherent_apply hm.isolation value
  · rw [(next_spec hm c).1]
    exact hm.registry.step fun h => Hook.blank_respond h _ _

/-! ### One hook -/

/-- A command moves the hook with a key by that hook's own response. -/
theorem get?_next (hm : m.Serves specs) (c : Command) (k : UInt8) :
    (m.next c).registry.get? k =
      (m.registry.get? k).map fun h => (h.respond (m.stimulus c) (m.next c).bus.memory).1 := by
  rw [(next_spec hm c).1]
  exact Registry.get?_step (fun h => Hook.key_respond h _ _) k

theorem get?_next_of_found (hm : m.Serves specs) {k : UInt8} {h : Hook}
    (found : m.registry.get? k = some h) (c : Command) :
    (m.next c).registry.get? k =
      some (h.respond (m.stimulus c) (m.next c).bus.memory).1 := by
  rw [get?_next hm, found, Option.map_some]

/-- The events of a command that carry a key are what the hook with that key emits. -/
theorem filter_events (hm : m.Serves specs) (c : Command) (k : UInt8) :
    (m.events c).filter (fun e => e.key = k) =
      ((m.registry.get? k).bind fun h =>
        (h.respond (m.stimulus c) (m.next c).bus.memory).2).toList := by
  refine Registry.filter_events_step hm.registry.nodup_keys (fun h e emitted => ?_) k
  obtain ⟨bytes, -, rfl⟩ := Hook.respond_event emitted
  rfl

/-- The bytes of a hook can always be read. -/
theorem exists_value (hm : m.Serves specs) {k : UInt8} {h : Hook}
    (found : m.registry.get? k = some h) (memory : Memory) :
    ∃ now, h.value memory = .ok now := by
  obtain ⟨range, sited⟩ :=
    hm.registry.sited ((Registry.get?_eq_some_iff hm.registry.nodup_keys).1 found).1
  exact ⟨_, sited.value_eq memory⟩

/-! ### Runs -/

/-- The machine after a run. -/
def after (m : Machine) (cs : List Command) : Machine := (m.performAll cs).2.1

/-- The events that a run makes the hooks report, in their order. -/
def log (m : Machine) : List Command → List HookEvent
  | [] => []
  | c :: cs => m.events c ++ (m.next c).log cs

@[simp] theorem after_nil (m : Machine) : m.after [] = m := rfl

@[simp] theorem after_cons (m : Machine) (c : Command) (cs : List Command) :
    m.after (c :: cs) = (m.next c).after cs := rfl

@[simp] theorem after_append (m : Machine) (cs ds : List Command) :
    m.after (cs ++ ds) = (m.after cs).after ds := by
  induction cs generalizing m with
  | nil => rfl
  | cons c cs ih => exact ih (m.next c)

@[simp] theorem log_append (m : Machine) (cs ds : List Command) :
    m.log (cs ++ ds) = m.log cs ++ (m.after cs).log ds := by
  induction cs generalizing m with
  | nil => rfl
  | cons c cs ih => simp [log, ih]

theorem Serves.after (hm : m.Serves specs) (cs : List Command) : (m.after cs).Serves specs := by
  induction cs generalizing m with
  | nil => exact hm
  | cons c cs ih => exact ih (hm.next c)

theorem registers_after (m : Machine) (cs : List Command) :
    (m.after cs).bus.registers = m.bus.registers := by
  induction cs generalizing m with
  | nil => rfl
  | cons c cs ih => rw [after_cons, ih, registers_next]

/-- A run reports its log. -/
theorem notifier_after (hm : m.Serves specs) (cs : List Command) :
    (m.after cs).notifier = m.notifier.report (m.log cs) := by
  induction cs generalizing m with
  | nil => rfl
  | cons c cs ih =>
    rw [after_cons, ih (hm.next c), (next_spec hm c).2, log]
    simp only [Notifier.report, List.foldl_append]

end Machine

end ConsoleBus
