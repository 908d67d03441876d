import ConsoleBus.IoError
import ConsoleBus.Memory.Map
import ConsoleBus.Text.Json

/-!
Hook specifications: what a caller asks to be watched, and the reasons for refusing a list of them.
-/

namespace ConsoleBus

/-- The largest hook key; the top bit of the key byte is used for something else on the wire. -/
def maxHookKey : UInt8 := 0x7f

/-- One entry of a hook list. -/
structure HookSpec where
  key : UInt8
  start : Address
  length : UInt32
  /-- Say nothing when the watched bytes are the ones last reported. -/
  dedupe : Bool := false
  /-- Say it once for each flush interval. -/
  coalesce : Bool := false
  /-- Begin silenced. -/
  silenced : Bool := false
  deriving DecidableEq, Repr

/-- Why a hook list is refused. -/
inductive HookError where
  | duplicateKey (key : UInt8)
  | keyOutOfRange (key : UInt8)
  | zeroLength (key : UInt8)
  | negativeLength (key : UInt8) (length : Int)
  | rangeOverflow (key : UInt8) (start : Address) (length : UInt32)
  | unbacked (key : UInt8) (cause : MemoryError)
  /-- The records stop before the announced number of them. -/
  | truncated (read expected : Nat)
  | io (error : IoError)
  | json (category : JsonCategory)
  deriving DecidableEq, Repr

namespace HookError

/-- The published name of an error. -/
def name : HookError → String
  | duplicateKey _ => "DuplicateKey"
  | keyOutOfRange _ => "KeyOutOfRange"
  | zeroLength _ => "ZeroLength"
  | negativeLength .. => "NegativeLength"
  | rangeOverflow .. => "RangeOverflow"
  | unbacked .. => "Unbacked"
  | truncated .. => "Truncated"
  | io _ => "Io"
  | json _ => "Json"

/-- The wording; what a JSON error says in detail is left to the reader of the text. -/
def message : HookError → String
  | duplicateKey key => s!"hook key {key} is used more than once"
  | keyOutOfRange key => s!"hook key {key} is out of range (max {maxHookKey})"
  | zeroLength key => s!"hook {key} has zero length"
  | negativeLength key length => s!"hook {key} has negative length {length}"
  | rangeOverflow key start length =>
    s!"hook {key} range {Text.address start}+{length} overflows the address space"
  | unbacked key cause => s!"hook {key} range is not backed by memory: {cause.message}"
  | truncated read expected => s!"hook list ended after {read} of {expected} records"
  | io error => s!"failed to read hook list: {error.message}"
  | json _ => "invalid hook list json"

end HookError

namespace HookSpec

/-- The checks that a spec has to pass by itself, in their order. -/
def check (s : HookSpec) : Except HookError Unit :=
  if maxHookKey < s.key then .error (.keyOutOfRange s.key)
  else if s.length = 0 then .error (.zeroLength s.key)
  else if (canonical s.start).toNat + s.length.toNat < UInt32.size ∧
      s.start.toNat + s.length.toNat < UInt32.size then .ok ()
  else .error (.rangeOverflow s.key s.start s.length)

end HookSpec

end ConsoleBus
