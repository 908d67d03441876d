import ConsoleBus.Watch.Hook

/-!
The registered hooks, in the order of the list that they came from. Keys are distinct, and every
range lies in one region, so its bytes can always be read. Beside the hooks the registry holds the
span from the lowest start to the highest end, by which most stores are passed over at once.
-/

namespace ConsoleBus

/-- The milliseconds between two reports of coalesced changes, where nothing else is asked for. -/
def defaultFlushInterval : Nat := 400

structure Registry where
  hooks : List Hook := []
  /-- The lowest start and the highest end, where there is a hook at all. -/
  span : Option (Nat × Nat) := none
  deriving DecidableEq

namespace Registry

def empty : Registry := {}

/-- The hook with a key. -/
def get? (r : Registry) (key : UInt8) : Option Hook := r.hooks.find? fun h => h.key == key

/-- The length of the values that the hook with this key reports. -/
def valueLength? (r : Registry) (key : UInt8) : Option Nat :=
  (r.get? key).map fun h => h.length.toNat

/-- The span widened by one more hook. -/
def widen (span : Option (Nat × Nat)) (h : Hook) : Nat × Nat :=
  match span with
  | none => (h.start.toNat, h.stop)
  | some (low, high) => (min low h.start.toNat, max high h.stop)

/-- Registers one more hook. -/
def add (r : Registry) (spec : HookSpec) : Except HookError Registry :=
  match spec.check with
  | .error e => .error e
  | .ok () =>
    if (r.get? spec.key).isSome then .error (.duplicateKey spec.key)
    else
      let hook := Hook.ofSpec spec
      match PageTable.powerOnRead.resolveRange hook.start hook.length.toNat with
      | .error cause => .error (.unbacked spec.key cause)
      | .ok _ => .ok { hooks := r.hooks ++ [hook], span := some (widen r.span hook) }

/-- Registers a list of hooks from the left, up to the first that is refused. -/
def addAll (r : Registry) : List HookSpec → Except HookError Registry
  | [] => .ok r
  | spec :: specs =>
    match r.add spec with
    | .error e => .error e
    | .ok r => addAll r specs

/-- The registry for a hook list. -/
def ofSpecs (specs : List HookSpec) : Except HookError Registry := addAll empty specs

/-- Whether a store at a canonical address reaches into the span. -/
def mayOverlap (r : Registry) (addr : Address) (width : Nat) : Bool :=
  match r.span with
  | none => false
  | some (low, high) => addr.toNat < high && low < addr.toNat + width

/-- Changes every hook by itself and collects what they emit, in the order of registration. -/
def step (r : Registry) (f : Hook → Hook × Option HookEvent) : Registry × List HookEvent :=
  let moved := r.hooks.map f
  ({ r with hooks := moved.map Prod.fst }, moved.filterMap Prod.snd)

/-- The reaction to a store of `width` bytes at an address. -/
def evaluate (r : Registry) (addr : Address) (width : Nat) (m : Memory) :
    Registry × List HookEvent :=
  if r.mayOverlap (canonical addr) width then r.step fun h => h.onStore (canonical addr) width m
  else (r, [])

/-- Reports the changes that wait. -/
def flush (r : Registry) (m : Memory) : Registry × List HookEvent := r.step fun h => h.flush m

/-- Sets the state of the hook with a key; the answer tells whether there is one. -/
def setState (r : Registry) (key : UInt8) (state : HookState) : Registry × Bool :=
  ({ r with hooks := r.hooks.map fun h => if h.key = key then { h with state := state } else h },
    (r.get? key).isSome)

/-- Silences a hook. -/
def silence (r : Registry) (key : UInt8) : Registry × Bool := r.setState key .silenced

/-- Lets a hook speak again; a change that waited is forgotten. -/
def unsilence (r : Registry) (key : UInt8) : Registry × Bool := r.setState key .noChanges

/-- Every hook's key and state, in the order of registration. -/
def states (r : Registry) : List (UInt8 × HookState) := r.hooks.map fun h => (h.key, h.state)

end Registry

end ConsoleBus
