import ConsoleBus.Channel.Request
import ConsoleBus.Text.Utf8

/-!
The hand-over of save and load requests. Whoever serves requests puts one into the slot, and the
execution side takes it out between two slices. There is room for one, and it stays in its place
while it is carried out, so whatever arrives in the meantime is turned away.
-/

namespace ConsoleBus

inductive DeferredKind where
  | save
  | load
  deriving DecidableEq, Repr

/-- The kind as messages show it. -/
def DeferredKind.name : DeferredKind → String
  | save => "save"
  | load => "load"

/-- A request to save or load the machine's state. -/
structure Deferred where
  kind : DeferredKind
  path : Path
  deriving DecidableEq, Repr

/-- The slot is taken by this request. -/
structure SlotConflict where
  pending : Deferred
  deriving DecidableEq, Repr

def SlotConflict.message (e : SlotConflict) : String :=
  s!"a deferred {e.pending.kind.name} of {Utf8.lossy e.pending.path} is already pending"

structure Slot where
  pending : Option Deferred := none
  deriving DecidableEq, Repr

namespace Slot

/-- Puts a request into the slot, unless there is one. -/
def request (s : Slot) (d : Deferred) : Except SlotConflict Unit × Slot :=
  match s.pending with
  | some pending => (.error ⟨pending⟩, s)
  | none => (.ok (), ⟨some d⟩)

/-- The request that was in the slot has been carried out. -/
def clear (_ : Slot) : Slot := ⟨none⟩

/-- Carries out the request in the slot, if there is one. `work` meets the slot as it is in the
meantime, and its answer is passed on. -/
def consume {α : Type} (s : Slot) (work : Deferred → Slot → α × Slot) : Option α × Slot :=
  match s.pending with
  | none => (none, s)
  | some d => (some (work d s).1, (work d s).2.clear)

end Slot

/-- What can be done to a slot. Actions inside a consumption are carried out while it lasts. -/
inductive SlotAction where
  | request (deferred : Deferred)
  | consume (inside : List SlotAction)

inductive SlotAnswer where
  | requested (outcome : Except SlotConflict Unit)
  /-- There was nothing to consume. -/
  | idle
  /-- What was consumed, and the answers and slots met inside. -/
  | consumed (deferred : Deferred) (inside : List (SlotAnswer × Slot))

namespace Slot

mutual

/-- Carries out an action. -/
def perform (s : Slot) : SlotAction → SlotAnswer × Slot
  | .request d => (.requested (s.request d).1, (s.request d).2)
  | .consume inside =>
    match s.pending with
    | none => (.idle, s)
    | some d =>
      let (steps, after) := s.performAll inside
      (.consumed d steps, after.clear)

/-- Carries out actions one after the other. Gives each answer with the slot after it. -/
def performAll (s : Slot) : List SlotAction → List (SlotAnswer × Slot) × Slot
  | [] => ([], s)
  | a :: rest =>
    let (answer, next) := s.perform a
    let (steps, after) := next.performAll rest
    ((answer, next) :: steps, after)

end

end Slot

end ConsoleBus
