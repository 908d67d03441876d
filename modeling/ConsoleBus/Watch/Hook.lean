import ConsoleBus.Channel.Notification
import ConsoleBus.Memory.View
import ConsoleBus.Watch.Spec

/-!
A hook and its state machine. A store that touches the hook is reported at once, or, for a
coalescing hook, remembered until the next flush; a hook with dedupe set keeps the bytes it saw last
and passes over a store that left them as they were. `Hook.touch` and `Hook.flush` are the two
transitions that can emit an event, and each emits at most one.
-/

namespace ConsoleBus

inductive HookState where
  | noChanges
  /-- A coalescing hook was touched once since the last flush. -/
  | pushedChanges
  /-- A coalescing hook was touched more than once since the last flush. -/
  | unpushedChanges
  | silenced
  deriving DecidableEq, Repr

/-- The published name of a state. -/
def HookState.name : HookState → String
  | noChanges => "NoChanges"
  | pushedChanges => "PushedChanges"
  | unpushedChanges => "UnpushedChanges"
  | silenced => "Silenced"

/-- Snapshots are compared by their bytes. -/
instance decidableEqSnapshot : DecidableEq ByteArray := fun a b => a.instDecidableEq b

/-- A watched range of canonical addresses. -/
structure Hook where
  key : UInt8
  start : Address
  length : UInt32
  dedupe : Bool
  coalesce : Bool
  state : HookState
  /-- The bytes seen last; only a hook with dedupe set keeps them. -/
  last : Option ByteArray := none
  deriving DecidableEq

namespace Hook

/-- The hook that a spec asks for. -/
def ofSpec (s : HookSpec) : Hook where
  key := s.key
  start := canonical s.start
  length := s.length
  dedupe := s.dedupe
  coalesce := s.coalesce
  state := if s.silenced then .silenced else .noChanges

/-- The first address after the range. -/
def stop (h : Hook) : Nat := h.start.toNat + h.length.toNat

/-- Whether a store of `width` bytes at a canonical address touches the range. -/
def overlaps (h : Hook) (addr : Address) (width : Nat) : Bool :=
  addr.toNat < h.stop && h.start.toNat < addr.toNat + width

/-- The hook's bytes. -/
def value (h : Hook) (m : Memory) : Except MemoryError ByteArray := m.block h.start h.length.toNat

/-- The event that reports these bytes. -/
def event (h : Hook) (bytes : ByteArray) : HookEvent := ⟨h.key, bytes.data.toList⟩

/-- The hook with its snapshot brought up to date, if it keeps one. -/
def remember (h : Hook) (bytes : ByteArray) : Hook :=
  if h.dedupe then { h with last := some bytes } else h

/-- A store touched the range. -/
def touch (h : Hook) (m : Memory) : Hook × Option HookEvent :=
  if h.state = .silenced ∨ h.state = .unpushedChanges then (h, none)
  else
    match h.value m with
    | .error _ => (h, none)
    | .ok bytes =>
      if h.dedupe ∧ h.last = some bytes then (h, none)
      else if h.state = .pushedChanges then
        ({ h with state := .unpushedChanges }.remember bytes, none)
      else if h.coalesce then ({ h with state := .pushedChanges }.remember bytes, none)
      else (h.remember bytes, some (h.event bytes))

/-- Whether a change waits for the next flush. -/
def isPending (h : Hook) : Bool := h.state = .pushedChanges || h.state = .unpushedChanges

/-- The flush interval is over. -/
def flush (h : Hook) (m : Memory) : Hook × Option HookEvent :=
  if h.isPending then
    let idle := { h with state := .noChanges }
    match h.value m with
    | .error _ => (idle, none)
    | .ok bytes => (idle.remember bytes, some (h.event bytes))
  else (h, none)

/-- The reaction to a store of `width` bytes at a canonical address. -/
def onStore (h : Hook) (addr : Address) (width : Nat) (m : Memory) : Hook × Option HookEvent :=
  if h.overlaps addr width then h.touch m else (h, none)

end Hook

end ConsoleBus
