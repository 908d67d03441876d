import ConsoleBus.Watch.Registry

/-!
The registration of a hook list in one pass. Beside the hooks the pass keeps the position of each
key's hook and the two ends of the span, which start as the ends of no range at all: the lower one
behind every address, the higher one at zero.
-/

namespace ConsoleBus

/-- What the pass has come to. -/
structure KeyTable where
  hooks : List Hook := []
  /-- For each key up to the largest, where its hook stands. -/
  positions : List (Option Nat) := List.replicate (maxHookKey.toNat + 1) none
  /-- The lowest start so far. -/
  low : Nat := 0xffffffffffffffff
  /-- The highest end so far. -/
  high : Nat := 0
  deriving DecidableEq

namespace KeyTable

/-- Where the hook with a key stands. -/
def position? (t : KeyTable) (key : UInt8) : Option Nat := t.positions[key.toNat]?.join

/-- The hook with a key. -/
def get? (t : KeyTable) (key : UInt8) : Option Hook := (t.position? key).bind fun i => t.hooks[i]?

/-- Enters one more hook. The position is that of the hook to come. -/
def add (t : KeyTable) (spec : HookSpec) : Except HookError KeyTable :=
  match spec.check with
  | .error e => .error e
  | .ok () =>
    if (t.position? spec.key).isSome then .error (.duplicateKey spec.key)
    else
      let positions := t.positions.set spec.key.toNat (some t.hooks.length)
      let hook := Hook.ofSpec spec
      match PageTable.powerOnRead.resolveRange hook.start hook.length.toNat with
      | .error cause => .error (.unbacked spec.key cause)
      | .ok _ => .ok { hooks := t.hooks ++ [hook], positions := positions,
                       low := min t.low hook.start.toNat, high := max t.high hook.stop }

/-- Enters a list of hooks from the left, up to the first that is refused. -/
def addAll (t : KeyTable) : List HookSpec → Except HookError KeyTable
  | [] => .ok t
  | spec :: specs =>
    match t.add spec with
    | .error e => .error e
    | .ok t => addAll t specs

/-- The table for a hook list. The span of no hooks is empty. -/
def ofSpecs (specs : List HookSpec) : Except HookError KeyTable :=
  match addAll {} specs with
  | .error e => .error e
  | .ok t => .ok { t with low := if t.hooks.isEmpty then 0 else t.low }

/-- Whether a store at a canonical address reaches into the span. -/
def mayOverlap (t : KeyTable) (addr : Address) (width : Nat) : Bool :=
  addr.toNat < t.high && t.low < addr.toNat + width

end KeyTable

end ConsoleBus
