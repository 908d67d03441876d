import ConsoleBus.Control.Action
import ConsoleBus.Snapshot.Store

/-!
The execution side. A tick passes the gate, carries out the request in the slot, if there is one,
and then runs one slice of the processor. `Execution.step` is one move of a tick; others may act on
the plane between any two moves. `Execution.settle` moves on until only somebody else can bring the
next move about: inside a slice, parked in the gate, or at the end.
-/

namespace ConsoleBus

/-- The nanoseconds between two fields of the display, which pace a processor without work. -/
def frameInterval : Nat := 16683350

/-- What a slice came to. -/
structure SliceResult (κ : Type) where
  core : κ
  machine : Machine
  effects : List Effect := []
  /-- The slice went wrong for good. -/
  crashed : Bool := false

/-- A processor with state `κ` of its own, which runs a bounded slice at a time. -/
structure Cpu (κ : Type) where
  slice : κ → Machine → SliceResult κ

/-- What a save or load came to. -/
structure StoreResult (σ : Type) where
  storage : σ
  machine : Machine
  files : FileTree
  outcome : Except IoError Unit
  effects : List Effect := []

/-- Whoever saves and loads the machine's state, with state `σ` of its own. -/
structure StateStore (σ : Type) where
  perform : σ → Deferred → Machine → FileTree → StoreResult σ

/-- What has been done so far. The counters have 64 bits; numbers stand for them here, and differ from
them only after 2 ^ 64 slices or requests. -/
structure ExecutionSummary where
  ticks : Nat := 0
  saves : Nat := 0
  loads : Nat := 0
  failed : Nat := 0
  deriving DecidableEq, Repr

/-- Counts a request that was carried out. -/
def ExecutionSummary.count (s : ExecutionSummary) (kind : DeferredKind) (succeeded : Bool) :
    ExecutionSummary :=
  match kind, succeeded with
  | .save, true => { s with saves := s.saves + 1 }
  | .load, true => { s with loads := s.loads + 1 }
  | _, false => { s with failed := s.failed + 1 }

/-- Where the execution side stands. -/
inductive ExecutionPhase where
  /-- Before a tick. -/
  | between
  | gate (phase : GatePhase)
  /-- Past the gate, and about to look at the slot. -/
  | deferred
  /-- Carrying out the request in the slot. -/
  | storing (deferred : Deferred)
  /-- About to run a slice. -/
  | slice
  | stopped
  | crashed
  deriving DecidableEq, Repr

structure Execution (κ σ : Type) where
  cpu : Cpu κ
  store : StateStore σ
  core : κ
  storage : σ
  /-- The number of slices after which execution stops by itself. -/
  maxTicks : Option Nat := none
  phase : ExecutionPhase := .between
  summary : ExecutionSummary := {}

/-- The execution side at work on a plane, and the effects on the bus so far. -/
structure Running (κ σ : Type) where
  execution : Execution κ σ
  plane : Plane
  effects : List Effect := []

namespace Execution

variable {κ σ : Type}

/-- Whether all the ticks that were asked for are over. -/
def exhausted (e : Execution κ σ) : Bool :=
  match e.maxTicks with
  | some n => n ≤ e.summary.ticks
  | none => false

/-- Where a phase of the gate leaves the execution side. -/
def phaseOfGate : GatePhase → ExecutionPhase
  | .passed .proceed => .deferred
  | .passed .shutdown => .stopped
  | p => .gate p

/-- Carries out a save or load, empties the slot and counts. A successful load voids all compiled
code. -/
def carryOut (e : Execution κ σ) (p : Plane) (d : Deferred) : Running κ σ :=
  let result := e.store.perform e.storage d p.machine p.host.files
  let succeeded := result.outcome.isOk
  let voided := if succeeded && d.kind = .load then [Effect.invalidatedAll] else []
  ⟨{ e with
      storage := result.storage
      phase := .slice
      summary := e.summary.count d.kind succeeded },
    { p with
      machine := result.machine
      host := { p.host with files := result.files }
      slot := p.slot.clear },
    result.effects ++ voided⟩

/-- Ends a slice that went well. -/
def endSlice (e : Execution κ σ) : Execution κ σ :=
  { e with phase := .between, summary := { e.summary with ticks := e.summary.ticks + 1 } }

/-- Runs a slice. -/
def runSlice (e : Execution κ σ) (p : Plane) : Running κ σ :=
  let result := e.cpu.slice e.core p.machine
  let e := { e with core := result.core }
  ⟨if result.crashed then { e with phase := .crashed } else e.endSlice,
    { p with machine := result.machine }, result.effects⟩

/-- The next move. -/
def step (e : Execution κ σ) (p : Plane) : Running κ σ :=
  match e.phase with
  | .between =>
    if e.exhausted then ⟨{ e with phase := .stopped }, p, []⟩
    else
      let (run, gate) := p.run.enter
      ⟨{ e with phase := phaseOfGate gate }, { p with run := run }, []⟩
  | .gate phase =>
    let (run, gate, status) := p.run.advance phase
    ⟨{ e with phase := phaseOfGate gate }, { p with run := run }.statuses status.toList, []⟩
  | .deferred =>
    match p.slot.pending with
    | none => ⟨{ e with phase := .slice }, p, []⟩
    | some d => ⟨{ e with phase := .storing d }, p, []⟩
  | .storing d => e.carryOut p d
  | .slice => e.runSlice p
  | .stopped => ⟨e, p, []⟩
  | .crashed => ⟨e, p, []⟩

/-- Whether the next move has to wait for somebody else. -/
def isResting (e : Execution κ σ) (p : Plane) : Bool :=
  match e.phase with
  | .slice | .stopped | .crashed => true
  | .gate .waiting => p.run.holds
  | _ => false

/-- At most so many moves towards a rest. -/
def settleWithin (e : Execution κ σ) (p : Plane) : Nat → Running κ σ
  | 0 => ⟨e, p, []⟩
  | moves + 1 =>
    if e.isResting p then ⟨e, p, []⟩
    else
      let next := e.step p
      let rest := next.execution.settleWithin next.plane moves
      { rest with effects := next.effects ++ rest.effects }

/-- The number of moves from the start of a tick to its slice, through a pause and a request. -/
def longestWay : Nat := 6

/-- Moves on to the next rest. -/
def settle (e : Execution κ σ) (p : Plane) : Running κ σ := e.settleWithin p longestWay

end Execution

/-- A tick, and the requests that were made while it was parked. -/
structure Tick (κ σ : Type) where
  running : Running κ σ
  parked : List (Option Bool × RunControl) := []

namespace Execution

variable {κ σ : Type}

/-- Makes the requests that arrive while parked, if the execution side is parked. -/
def visit (e : Execution κ σ) (p : Plane) (requests : List RunRequest) :
    Plane × List (Option Bool × RunControl) :=
  if e.phase = .gate .waiting then
    let (steps, run) := p.run.requestAll (p.run.whileParked requests)
    ({ p with run := run }, steps)
  else (p, [])

/-- A whole tick, during which the given requests arrive if it parks. -/
def tick (e : Execution κ σ) (p : Plane) (requests : List RunRequest) : Tick κ σ :=
  let arrived := e.settle p
  let (plane, parked) := arrived.execution.visit arrived.plane requests
  let ready := arrived.execution.settle plane
  let ran := if ready.execution.phase = .slice then ready.execution.step ready.plane
    else ⟨ready.execution, ready.plane, []⟩
  ⟨{ ran with effects := arrived.effects ++ ready.effects ++ ran.effects }, parked⟩

/-- Whether a tick went through to its end. -/
def wentOn (e : Execution κ σ) : Bool := e.phase = .between

/-- Ticks up to the first that does not go through, and at most so many. -/
def runFor (e : Execution κ σ) (p : Plane) (requests : List RunRequest) : Nat → Tick κ σ
  | 0 => ⟨⟨e, p, []⟩, []⟩
  | ticks + 1 =>
    let first := e.tick p requests
    if first.running.execution.wentOn then
      let rest := first.running.execution.runFor first.running.plane requests ticks
      ⟨{ rest.running with effects := first.running.effects ++ rest.running.effects },
        first.parked ++ rest.parked⟩
    else first

/-- A number of ticks that is enough for a run of limited length. -/
def ticksLeft (e : Execution κ σ) : Nat :=
  match e.maxTicks with
  | some n => n - e.summary.ticks + 1
  | none => 1

end Execution

/-- What can happen on the execution side and to its plane. -/
inductive ExecutionStep where
  | tick (requests : List RunRequest)
  /-- Ticks to the end, and acts afterwards. -/
  | run (requests : List RunRequest) (actions : List Action)
  | act (action : Action)

namespace Execution

variable {κ σ : Type}

/-- Takes a step, with the answers of its actions. -/
def take (e : Execution κ σ) (p : Plane) : ExecutionStep → Tick κ σ × List ActionAnswer
  | .tick requests => (e.tick p requests, [])
  | .run requests actions =>
    let t := e.runFor p requests e.ticksLeft
    let (answers, plane, effects) := t.running.plane.performAll actions
    (⟨⟨t.running.execution, plane, t.running.effects ++ effects⟩, t.parked⟩, answers)
  | .act action =>
    let (answer, plane, effects) := p.perform action
    (⟨⟨e, plane, effects⟩, []⟩, [answer])

/-- How the last tick ended. -/
def word (e : Execution κ σ) : Gate := if e.wentOn then .proceed else .shutdown

end Execution

namespace Cpu

/-- A processor that executes nothing. -/
def idle : Cpu Unit := ⟨fun _ m => { core := (), machine := m }⟩

end Cpu

/-- What a scripted processor does in one slice. -/
inductive ScriptedSlice where
  | commands (commands : List Command)
  | crash

/-- The slices to come, and the answers of those that are over, the latest in front. -/
structure Script where
  slices : List ScriptedSlice := []
  answered : List (List Answer) := []

namespace Cpu

/-- A processor that follows a script; past its end the slices do nothing. -/
def scripted : Cpu Script where
  slice s m :=
    match s.slices with
    | [] => { core := { s with answered := [] :: s.answered }, machine := m }
    | .crash :: rest => { core := { s with slices := rest }, machine := m, crashed := true }
    | .commands cs :: rest =>
      let (answers, m, effects) := m.performAll cs
      { core := ⟨rest, answers :: s.answered⟩, machine := m, effects := effects }

end Cpu

/-- The store that keeps memory images in files. -/
def ImageStore.asStateStore : StateStore ImageStore where
  perform s d m files :=
    match d.kind with
    | .save =>
      let (outcome, files) := s.save d.path m.bus.memory files
      { storage := s, machine := m, files := files, outcome := outcome }
    | .load =>
      match s.load d.path m.bus.memory files with
      | .ok memory =>
        { storage := s, machine := m.mapMemory fun _ => memory, files := files, outcome := .ok () }
      | .error e => { storage := s, machine := m, files := files, outcome := .error e }

end ConsoleBus
