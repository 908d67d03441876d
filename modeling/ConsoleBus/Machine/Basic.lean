import ConsoleBus.Bus
import ConsoleBus.Channel.Notifier
import ConsoleBus.Watch.Registry

/-!
The machine that is watched: a bus, the hooks that hear of its stores, and the channel on which they
report. Every store that reaches memory, by the bus or by a handle, is evaluated against the hooks
right after it.
-/

namespace ConsoleBus

structure Machine where
  bus : Bus := {}
  registry : Registry := .empty
  notifier : Notifier := {}

namespace Machine

/-- Evaluates a store against the hooks and sends what they report. -/
def evaluate (m : Machine) (addr : Address) (width : Nat) : Machine :=
  let (registry, events) := m.registry.evaluate addr width m.bus.memory
  { m with registry := registry, notifier := m.notifier.report events }

/-- Lets the hooks hear of the stores among the effects. -/
def hear (m : Machine) (effects : List Effect) : Machine :=
  effects.foldl
    (fun m effect =>
      match effect with
      | .observed addr width _ => m.evaluate addr width
      | _ => m) m

/-- Loads on the bus. -/
def load (m : Machine) (addr : Address) (w : Width) : UInt32 × Machine × List Effect :=
  let (value, bus, effects) := m.bus.load addr w
  (value, { m with bus := bus }, effects)

/-- Stores on the bus. -/
def store (m : Machine) (addr : Address) (w : Width) (value : UInt32) : Machine × List Effect :=
  match m with
  | ⟨bus, registry, notifier⟩ =>
    let (bus, effects) := bus.store addr w value
    ((Machine.mk bus registry notifier).hear effects, effects)

/-- Stores one byte through a handle. -/
def storeByHandle (m : Machine) (addr : Address) (value : UInt8) :
    Except MemoryError Unit × Machine × List Effect :=
  match m with
  | ⟨bus, registry, notifier⟩ =>
    let (outcome, bus, effects) := bus.storeByHandle addr value
    (outcome, (Machine.mk bus registry notifier).hear effects, effects)

/-- Reports the coalesced changes that wait, and counts the reports. -/
def flush (m : Machine) : Machine × Nat :=
  let (registry, events) := m.registry.flush m.bus.memory
  ({ m with registry := registry, notifier := m.notifier.report events }, events.length)

/-- Silences a hook. -/
def silence (m : Machine) (key : UInt8) : Machine × Bool :=
  let (registry, found) := m.registry.silence key
  ({ m with registry := registry }, found)

/-- Lets a hook speak again. -/
def unsilence (m : Machine) (key : UInt8) : Machine × Bool :=
  let (registry, found) := m.registry.unsilence key
  ({ m with registry := registry }, found)

/-- Sends a status byte. -/
def status (m : Machine) (s : Status) : Machine := { m with notifier := m.notifier.status s }

/-- Changes the storage directly, past the hooks and without any effect. -/
def mapMemory (m : Machine) (f : Memory → Memory) : Machine :=
  match m with
  | ⟨⟨memory, isolation, stats, registers⟩, registry, notifier⟩ =>
    ⟨⟨f memory, isolation, stats, registers⟩, registry, notifier⟩

end Machine

end ConsoleBus
