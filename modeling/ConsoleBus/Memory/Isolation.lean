import ConsoleBus.Memory.Map

/-!
Cache isolation. Two control values blank the RAM windows of a write table and two bring them back;
a command that would change nothing is recognised and ignored, and so is any other value.
-/

namespace ConsoleBus

/-- The control values that isolate the cache. -/
def isolateValues : List UInt32 := [0x800, 0x804]

/-- The control values that end the isolation. -/
def restoreValues : List UInt32 := [0x0, 0x1e988]

/-- What a control value did. -/
inductive IsolationChange where
  | isolated
  | restored
  | unchanged
  | unknownValue
  deriving DecidableEq, Repr

/-- The published name of a change. -/
def IsolationChange.name : IsolationChange → String
  | isolated => "Isolated"
  | restored => "Restored"
  | unchanged => "Unchanged"
  | unknownValue => "UnknownValue"

/-- The isolation flag beside the write table that it governs. -/
structure Isolation where
  active : Bool
  table : PageTable

/-- Obeys a control value. -/
def Isolation.apply (s : Isolation) (value : UInt32) : Isolation × IsolationChange :=
  if value ∈ isolateValues then
    if s.active then (s, .unchanged) else (⟨true, s.table.clearRam⟩, .isolated)
  else if value ∈ restoreValues then
    if s.active then (⟨false, s.table.installRam⟩, .restored) else (s, .unchanged)
  else (s, .unknownValue)

/-- The isolation switch of a fresh bus. -/
def Isolation.powerOn : Isolation := ⟨false, .powerOnWrite⟩

end ConsoleBus
