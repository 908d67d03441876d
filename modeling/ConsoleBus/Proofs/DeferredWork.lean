import ConsoleBus.Control.Execution
import Mathlib.Data.List.Induction

/-!
Deferred work. The execution thread calls one tick after the other, and between any two of its moves
saves and loads may be asked for, and pauses, resumptions and the shutdown; a run is any list of such
moves. The history keeps each call with what it did and with the counters that it found and left.
What a call under way has done is a function of the phase (`TickCall.Reached`), and one that has
returned either did nothing or did all its work in its order (`TickCall.TurnedAway`,
`TickCall.WentThrough`). What a move comes to is what its event says (`Execution.Yields`): two kinds
of moves call the store or the processor, and the others are alike in what they leave alone
(`Execution.step_cases`). The effects of a move are those of the processor or the store, and then its
own (`Execution.effects_step`). So each request is counted once, and all compiled code is void just
after the loads (`WorkHistory.deferred_work`).
-/

namespace ConsoleBus

/-! ### The moves of a tick -/

/-- What a tick does. -/
inductive TickEvent where
  /-- The gate lets it pass. -/
  | passed
  /-- It looks at the slot. -/
  | looked (pending : Option Deferred)
  /-- It has carried out a request, with this left in the slot and with these effects of its own. -/
  | carriedOut (deferred : Deferred) (succeeded : Bool) (left : Option Deferred) (own : List Effect)
  /-- The processor has run a slice. -/
  | sliced

namespace TickEvent

/-- A request was carried out. -/
def isWork : TickEvent → Bool
  | carriedOut .. => true
  | _ => false

/-- A load was carried out with success. -/
def isLoad : TickEvent → Bool
  | carriedOut d succeeded _ _ => succeeded && d.kind = .load
  | _ => false

end TickEvent

/-- A tick is under way and may still come to its slice. -/
def ExecutionPhase.InTick : ExecutionPhase → Prop
  | .gate _ | .deferred | .storing _ | .slice => True
  | .between | .stopped | .crashed => False

namespace Execution

variable {κ σ : Type} {e : Execution κ σ} {p : Plane}

/-- The effects of the next move that are the processor's or the store's. -/
def foreign (e : Execution κ σ) (p : Plane) : List Effect :=
  match e.phase with
  | .storing d => (e.store.perform e.storage d p.machine p.host.files).effects
  | .slice => (e.cpu.slice e.core p.machine).effects
  | _ => []

/-- The other effects of the next move. -/
def own (e : Execution κ σ) (p : Plane) : List Effect :=
  (e.step p).effects.drop (e.foreign p).length

/-- What the next move of a tick does. -/
def event? (e : Execution κ σ) (p : Plane) : Option TickEvent :=
  match e.phase with
  | .between | .gate _ => if (e.step p).execution.phase = .deferred then some .passed else none
  | .deferred => some (.looked p.slot.pending)
  | .storing d =>
    some (.carriedOut d (e.store.perform e.storage d p.machine p.host.files).outcome.isOk
      (e.step p).plane.slot.pending (e.own p))
  | .slice => some .sliced
  | .stopped | .crashed => none

/-- The effects of the execution side itself, once it has carried out a request. -/
def voided (d : Deferred) (succeeded : Bool) : List Effect :=
  if succeeded && d.kind = .load then [.invalidatedAll] else []

/-- Carrying out a request voids all compiled code if it was a load that succeeded. -/
theorem own_of_storing {d : Deferred} (storing : e.phase = .storing d) :
    e.own p = voided d (e.store.perform e.storage d p.machine p.host.files).outcome.isOk := by
  rw [own, foreign, step]
  simp only [storing, carryOut, List.drop_left, voided]

theorem own_of_slice (slice : e.phase = .slice) : e.own p = [] := by
  rw [own, foreign, step]
  simp only [slice, runSlice, List.drop_length]

/-- The gate leads to the slot, to the end, or back to itself. -/
theorem phaseOfGate_ne (g : GatePhase) :
    phaseOfGate g ≠ .between ∧ ∀ d, phaseOfGate g ≠ .storing d := by
  cases g with
  | passed word => cases word <;> exact ⟨nofun, nofun⟩
  | _ => exact ⟨nofun, nofun⟩

/-- All that changes is the phase, the flags of the gate and what the channel has taken. -/
structure Spares (e : Execution κ σ) (p : Plane) (next : Running κ σ) : Prop where
  execution : next.execution = { e with phase := next.execution.phase }
  plane : next.plane = { p with
    run := next.plane.run
    machine := { p.machine with notifier := next.plane.machine.notifier } }

/-- All that there is to tell about the next move is that the gate was passed or the slot looked at. -/
def Idles (e : Execution κ σ) (p : Plane) : Prop :=
  e.event? p = none ∨ e.event? p = some .passed ∨ e.event? p = some (.looked p.slot.pending)

/-- What the moves have in common that carry out nothing and run no slice. -/
structure Passive (e : Execution κ σ) (p : Plane) : Prop where
  spares : e.Spares p (e.step p)
  ne_between : (e.step p).execution.phase ≠ .between
  inTick : (e.step p).execution.phase.InTick →
    e.phase.InTick ∨ e.phase = .between ∧ e.exhausted = false
  told : e.Idles p
  own : e.own p = []

/-- A move that leads to another phase and leaves everything else of the execution side alone. -/
theorem Passive.of_step {phase : ExecutionPhase} {q : Plane}
    (stepped : e.step p = ⟨{ e with phase := phase }, q, []⟩)
    (same : q = { p with
      run := q.run
      machine := { p.machine with notifier := q.machine.notifier } })
    (ne_between : phase ≠ .between)
    (inTick : phase.InTick → e.phase.InTick ∨ e.phase = .between ∧ e.exhausted = false)
    (told : e.Idles p) : e.Passive p where
  spares := by
    rw [stepped]
    exact ⟨rfl, same⟩
  ne_between := by rwa [stepped]
  inTick := by rwa [stepped]
  told := told
  own := by rw [Execution.own, stepped, List.drop_nil]

theorem Passive.summary (passive : e.Passive p) : (e.step p).execution.summary = e.summary := by
  rw [passive.spares.execution]

theorem Passive.idle (passive : e.Passive p) : ∀ event ∈ e.event? p, event.isWork = false := by
  rcases passive.told with none | passed | looked
  · rw [none]
    nofun
  · rw [passed]
    rintro _ ⟨⟩
    rfl
  · rw [looked]
    rintro _ ⟨⟩
    rfl

/-- A move carries out a request, runs a slice, or does neither. -/
theorem step_cases (e : Execution κ σ) (p : Plane) :
    (∃ d, e.phase = .storing d ∧ e.step p = e.carryOut p d) ∨
      e.phase = .slice ∧ e.step p = e.runSlice p ∨ e.Passive p := by
  have gated (told : e.event? p =
      if (e.step p).execution.phase = .deferred then some .passed else none) : e.Idles p := by
    rw [Idles, told]
    split
    · exact .inr (.inl rfl)
    · exact .inl rfl
  cases phase : e.phase with
  | storing d => exact .inl ⟨d, rfl, by rw [step, phase]⟩
  | slice => exact .inr (.inl ⟨rfl, by rw [step, phase]⟩)
  | between =>
    have told := gated (by rw [event?, phase])
    refine .inr (.inr ?_)
    by_cases ended : e.exhausted = true
    · have stepped : e.step p = ⟨{ e with phase := .stopped }, p, []⟩ := by
        simp only [step, phase, if_pos ended]
      exact .of_step stepped rfl nofun nofun told
    · have stepped : e.step p =
          ⟨{ e with phase := phaseOfGate p.run.enter.2 }, { p with run := p.run.enter.1 }, []⟩ := by
        simp only [step, phase, if_neg ended]
      exact .of_step stepped rfl (phaseOfGate_ne _).1
        (fun _ => .inr ⟨phase, Bool.eq_false_iff.2 ended⟩) told
  | gate g =>
    have inTick : e.phase.InTick := by rw [phase]; trivial
    have stepped : e.step p = ⟨{ e with phase := phaseOfGate (p.run.advance g).2.1 },
        { p with run := (p.run.advance g).1 }.statuses (p.run.advance g).2.2.toList, []⟩ := by
      rw [step, phase]
    refine .inr (.inr (.of_step stepped ?_ (phaseOfGate_ne _).1 (fun _ => .inl inTick)
      (gated (by rw [event?, phase]))))
    cases (p.run.advance g).2.2 <;> rfl
  | deferred =>
    have inTick : e.phase.InTick := by rw [phase]; trivial
    have told : e.event? p = some (.looked p.slot.pending) := by rw [event?, phase]
    refine .inr (.inr ?_)
    cases pending : p.slot.pending with
    | none =>
      have stepped : e.step p = ⟨{ e with phase := .slice }, p, []⟩ := by
        simp only [step, phase, pending]
      exact .of_step stepped rfl nofun (fun _ => .inl inTick) (.inr (.inr told))
    | some d =>
      have stepped : e.step p = ⟨{ e with phase := .storing d }, p, []⟩ := by
        simp only [step, phase, pending]
      exact .of_step stepped rfl nofun (fun _ => .inl inTick) (.inr (.inr told))
  | stopped =>
    have stepped : e.step p = ⟨{ e with phase := .stopped }, p, []⟩ := by
      simp only [step, phase]
      rw [← phase]
    exact .inr (.inr (.of_step stepped rfl nofun nofun (.inl (by rw [event?, phase]))))
  | crashed =>
    have stepped : e.step p = ⟨{ e with phase := .crashed }, p, []⟩ := by
      simp only [step, phase]
      rw [← phase]
    exact .inr (.inr (.of_step stepped rfl nofun nofun (.inl (by rw [event?, phase]))))

/-- The effects of a move are the foreign ones, and then its own. -/
theorem effects_step (e : Execution κ σ) (p : Plane) :
    (e.step p).effects = e.foreign p ++ e.own p := by
  have first : e.foreign p <+: (e.step p).effects := by
    rw [foreign, step]
    cases e.phase with
    | storing d => exact List.prefix_append _ _
    | slice => exact List.prefix_rfl
    | _ => exact List.nil_prefix
  rw [own]
  exact (List.prefix_iff_eq_append.1 first).symm

/-- What a move comes to that does this. A request is carried out by one call of the store, on the
storage, the machine and the files as they are; a slice is one call of the processor, on its state
and the machine as they are. Everything else stays, and where there is neither, all that changes is
what `Spares` allows. -/
def Yields (e : Execution κ σ) (p : Plane) (next : Running κ σ) : Option TickEvent → Prop
  | some (.carriedOut d succeeded left _) =>
    let result := e.store.perform e.storage d p.machine p.host.files
    succeeded = result.outcome.isOk ∧ left = none ∧
      next.execution = { e with
        storage := result.storage
        phase := .slice
        summary := e.summary.count d.kind succeeded } ∧
      next.plane = { p with
        machine := result.machine
        host := { p.host with files := result.files }
        slot := ⟨left⟩ }
  | some .sliced =>
    let result := e.cpu.slice e.core p.machine
    next.execution = { e with
        core := result.core
        phase := if result.crashed then .crashed else .between
        summary := { e.summary with ticks := e.summary.ticks + (!result.crashed).toNat } } ∧
      next.plane = { p with machine := result.machine }
  | some (.looked pending) => pending = p.slot.pending ∧ e.Spares p next
  | some .passed | none => e.Spares p next

/-- Every move comes to what its event says. -/
theorem step_yields (e : Execution κ σ) (p : Plane) : e.Yields p (e.step p) (e.event? p) := by
  rcases e.step_cases p with ⟨d, phase, stepped⟩ | ⟨phase, stepped⟩ | passive
  · rw [event?, stepped]
    simp only [phase]
    exact ⟨rfl, rfl, rfl, rfl⟩
  · rw [event?, stepped]
    simp only [phase]
    refine ⟨?_, rfl⟩
    rw [runSlice]
    cases (e.cpu.slice e.core p.machine).crashed <;> rfl
  · rcases passive.told with none | passed | looked
    · rw [none]
      exact passive.spares
    · rw [passed]
      exact passive.spares
    · rw [looked]
      exact ⟨rfl, passive.spares⟩

/-- The processor and the store are the same throughout. -/
theorem parts_step (e : Execution κ σ) (p : Plane) :
    (e.step p).execution.cpu = e.cpu ∧ (e.step p).execution.store = e.store := by
  rcases e.step_cases p with ⟨d, -, stepped⟩ | ⟨-, stepped⟩ | passive
  · rw [stepped]
    exact ⟨rfl, rfl⟩
  · rw [stepped, runSlice]
    split <;> exact ⟨rfl, rfl⟩
  · rw [passive.spares.execution]
    exact ⟨rfl, rfl⟩

/-- A move that is about to carry out a request has found it in the slot and left it there. -/
theorem pending_of_storing {d : Deferred} (storing : (e.step p).execution.phase = .storing d) :
    (e.step p).plane.slot.pending = some d := by
  rw [step] at storing ⊢
  cases phase : e.phase with
  | between =>
    simp only [phase] at storing
    split at storing
    · cases storing
    · exact absurd storing ((phaseOfGate_ne _).2 d)
  | gate g =>
    simp only [phase] at storing
    exact absurd storing ((phaseOfGate_ne _).2 d)
  | deferred =>
    simp only [phase] at storing ⊢
    split at storing
    · cases storing
    · next d' pending =>
      cases storing
      rw [pending]
  | storing d' =>
    simp only [phase] at storing
    cases storing
  | slice =>
    simp only [phase, runSlice] at storing
    split at storing <;> cases storing
  | stopped =>
    simp only [phase] at storing
    cases storing
  | crashed =>
    simp only [phase] at storing
    cases storing

end Execution

/-- Counts a request, if one was carried out, and whether with success. -/
def ExecutionSummary.countAny (s : ExecutionSummary) : Option (Deferred × Bool) → ExecutionSummary
  | none => s
  | some (d, succeeded) => s.count d.kind succeeded

namespace ExecutionSummary

@[simp] theorem ticks_count (s : ExecutionSummary) (kind : DeferredKind) (succeeded : Bool) :
    (s.count kind succeeded).ticks = s.ticks := by
  cases kind <;> cases succeeded <;> rfl

/-- A request that was carried out is counted once, whatever came of it. -/
theorem work_count (s : ExecutionSummary) (kind : DeferredKind) (succeeded : Bool) :
    (s.count kind succeeded).saves + (s.count kind succeeded).loads +
      (s.count kind succeeded).failed = s.saves + s.loads + s.failed + 1 := by
  cases kind <;> cases succeeded <;> simp only [count] <;> omega

theorem loads_count (s : ExecutionSummary) (kind : DeferredKind) (succeeded : Bool) :
    (s.count kind succeeded).loads = s.loads + (succeeded && kind = .load).toNat := by
  cases kind <;> cases succeeded <;> rfl

@[simp] theorem ticks_countAny (s : ExecutionSummary) (work : Option (Deferred × Bool)) :
    (s.countAny work).ticks = s.ticks := by
  rcases work with _ | ⟨d, succeeded⟩
  · rfl
  · exact s.ticks_count d.kind succeeded

end ExecutionSummary

/-! ### Calls -/

/-- A call of a tick, as far as it has got. -/
structure TickCall where
  /-- The counters as the call found them. -/
  found : ExecutionSummary
  events : List TickEvent := []
  /-- What the call has returned, and the counters then. -/
  returned : Option (Gate × ExecutionSummary) := none

namespace TickCall

/-- What a call does about the slot. Whatever it finds there it carries out, and leaves the slot
empty. -/
def consumed : Option (Deferred × Bool) → List TickEvent
  | none => [.looked none]
  | some (d, succeeded) =>
    [.looked (some d), .carriedOut d succeeded none (Execution.voided d succeeded)]

/-- The call was turned away and did nothing. -/
def TurnedAway (call : TickCall) : Prop :=
  call.events = [] ∧ call.returned = some (.shutdown, call.found)

/-- The call went through: it passed the gate, consumed what was in the slot and ran a slice. -/
def WentThrough (call : TickCall) : Prop :=
  ∃ work : Option (Deferred × Bool),
    call.events = .passed :: consumed work ++ [.sliced] ∧
      call.returned = some (.proceed,
        { call.found.countAny work with ticks := call.found.ticks + 1 })

/-- How far a call has got when the execution side is in this phase and has these counters. -/
def Reached (call : TickCall) (phase : ExecutionPhase) (now : ExecutionSummary) : Prop :=
  match phase with
  | .gate _ | .stopped => call.events = [] ∧ now = call.found
  | .deferred => call.events = [.passed] ∧ now = call.found
  | .storing d => call.events = [.passed, .looked (some d)] ∧ now = call.found
  | .slice => ∃ work, call.events = .passed :: consumed work ∧ now = call.found.countAny work
  | .between =>
    ∃ work, call.events = .passed :: consumed work ++ [.sliced] ∧
      now = { call.found.countAny work with ticks := call.found.ticks + 1 }
  | .crashed =>
    ∃ work, call.events = .passed :: consumed work ++ [.sliced] ∧ now = call.found.countAny work

/-- A successful return is a tick. -/
def isTick (call : TickCall) : Bool :=
  match call.returned with
  | some (.proceed, _) => true
  | _ => false

/-- The call with one more move. -/
def add (call : TickCall) (event : Option TickEvent) : TickCall :=
  { call with events := call.events ++ event.toList }

variable {κ σ : Type} {e : Execution κ σ} {p : Plane} {call : TickCall}

/-- The gate keeps a call, turns it away, or lets it pass. -/
theorem reached_gate (idle : call.events = []) (g : GatePhase) :
    (call.add (if Execution.phaseOfGate g = .deferred then some .passed else none)).Reached
      (Execution.phaseOfGate g) call.found := by
  cases g with
  | passed word => cases word <;> simp [Execution.phaseOfGate, add, Reached, idle]
  | _ => simp [Execution.phaseOfGate, add, Reached, idle]

/-- A call begins. -/
theorem reached_begin (between : e.phase = .between) :
    (add { found := e.summary } (e.event? p)).Reached (e.step p).execution.phase
      (e.step p).execution.summary := by
  rw [Execution.event?, Execution.step]
  simp only [between]
  split
  · exact ⟨rfl, rfl⟩
  · exact reached_gate rfl p.run.enter.2

/-- A call that is under way moves on. -/
theorem reached_step (reached : call.Reached e.phase e.summary) (underway : e.phase ≠ .between) :
    (call.add (e.event? p)).Reached (e.step p).execution.phase (e.step p).execution.summary := by
  have own {d : Deferred} (storing : e.phase = .storing d) :=
    Execution.own_of_storing (p := p) storing
  rw [Execution.event?, Execution.step]
  cases phase : e.phase with
  | between => exact absurd phase underway
  | gate g =>
    rw [phase] at reached
    obtain ⟨idle, kept⟩ := reached
    have moved := reached_gate idle (p.run.advance g).2.1
    rw [← kept] at moved
    exact moved
  | deferred =>
    rw [phase] at reached
    obtain ⟨passed, kept⟩ := reached
    simp only [add, passed]
    split
    · next empty => exact ⟨none, by rw [empty]; rfl, kept⟩
    · next d full => exact ⟨by rw [full]; rfl, kept⟩
  | storing d =>
    rw [phase] at reached
    obtain ⟨looked, kept⟩ := reached
    simp only [own phase, add, looked]
    refine ⟨some (d, _), rfl, ?_⟩
    rw [← kept]
    rfl
  | slice =>
    rw [phase] at reached
    obtain ⟨work, consumed, kept⟩ := reached
    simp only [Execution.runSlice]
    split
    · exact ⟨work, by simp [add, consumed], kept⟩
    · refine ⟨work, by simp [add, consumed], ?_⟩
      simp only [Execution.endSlice, kept, ExecutionSummary.ticks_countAny]
      rfl
  | stopped =>
    rw [phase] at reached
    simp only [phase]
    exact ⟨(List.append_nil _).trans reached.1, reached.2⟩
  | crashed =>
    rw [phase] at reached
    obtain ⟨work, consumed, kept⟩ := reached
    simp only [phase]
    exact ⟨work, (List.append_nil _).trans consumed, kept⟩

end TickCall

/-! ### Runs -/

/-- A move of a run: a request for the slot or for the gate, or the next move of the execution
thread. -/
inductive WorkMove where
  | request (deferred : Deferred)
  | run (request : RunRequest)
  | execution

/-- The execution side and its plane, the calls that have returned and the one under way, and the
effects that are not the processor's or the store's. -/
structure WorkHistory (κ σ : Type) where
  execution : Execution κ σ
  plane : Plane
  past : List TickCall := []
  current : Option TickCall := none
  own : List Effect := []

namespace WorkHistory

variable {κ σ : Type}

/-- The next move of a call. -/
def move (h : WorkHistory κ σ) (e : Execution κ σ) (call : TickCall) : WorkHistory κ σ :=
  let next := e.step h.plane
  let call := call.add (e.event? h.plane)
  let own := h.own ++ e.own h.plane
  let returns (word : Gate) : WorkHistory κ σ :=
    ⟨next.execution, next.plane,
      h.past ++ [{ call with returned := some (word, next.execution.summary) }], none, own⟩
  match next.execution.phase with
  | .between => returns .proceed
  | .stopped => returns .shutdown
  | _ => ⟨next.execution, next.plane, h.past, some call, own⟩

/-- The execution thread moves on in the call that is under way, or else in a new one, whatever the
last one has returned. -/
def next (h : WorkHistory κ σ) : WorkMove → WorkHistory κ σ
  | .request d => { h with plane := { h.plane with slot := (h.plane.slot.request d).2 } }
  | .run q => { h with plane := { h.plane with run := (h.plane.run.request q).2 } }
  | .execution =>
    match h.current with
    | some call => h.move h.execution call
    | none => h.move { h.execution with phase := .between } { found := h.execution.summary }

/-- The execution side as its next move finds it. -/
def poised (h : WorkHistory κ σ) : Execution κ σ :=
  match h.current with
  | some _ => h.execution
  | none => { h.execution with phase := .between }

/-- Before the first move of an execution side. -/
def start (e : Execution κ σ) (p : Plane) : WorkHistory κ σ :=
  { execution := { e with phase := .between, summary := {} }, plane := p }

/-- The history of a run. -/
def after (e : Execution κ σ) (p : Plane) (moves : List WorkMove) : WorkHistory κ σ :=
  moves.foldl next (start e p)

/-- The calls in the order in which they began. -/
def calls (h : WorkHistory κ σ) : List TickCall := h.past ++ h.current.toList

/-- Everything that was done. -/
def events (h : WorkHistory κ σ) : List TickEvent := h.calls.flatMap TickCall.events

theorem after_concat (e : Execution κ σ) (p : Plane) (moves : List WorkMove) (m : WorkMove) :
    after e p (moves ++ [m]) = (after e p moves).next m := List.foldl_append ..

variable {e : Execution κ σ} {p : Plane} {h : WorkHistory κ σ} {call : TickCall}

/-- A move of a call is a move of the execution side, and is told at the end of the call. -/
theorem move_eq (h : WorkHistory κ σ) (e : Execution κ σ) (call : TickCall) :
    (h.move e call).execution = (e.step h.plane).execution ∧
      (h.move e call).plane = (e.step h.plane).plane ∧
      (h.move e call).events =
        h.past.flatMap TickCall.events ++ call.events ++ (e.event? h.plane).toList ∧
      (h.move e call).own = h.own ++ e.own h.plane := by
  rw [move]
  cases (e.step h.plane).execution.phase <;>
    exact ⟨rfl, rfl, by simp [events, calls, TickCall.add], rfl⟩

/-- The next move of the execution thread is a move of the call under way, or else of a new one. -/
theorem exists_call (h : WorkHistory κ σ) :
    ∃ call, h.next .execution = h.move h.poised call ∧
      h.events = h.past.flatMap TickCall.events ++ call.events := by
  cases now : h.current with
  | none =>
    refine ⟨{ found := h.execution.summary }, by simp only [next, poised, now], ?_⟩
    rw [events, calls, now, Option.toList_none, List.append_nil, List.append_nil]
  | some call =>
    refine ⟨call, by simp only [next, poised, now], ?_⟩
    rw [events, calls, now, Option.toList_some, List.flatMap_append, List.flatMap_singleton]

theorem next_execution (h : WorkHistory κ σ) :
    (h.next .execution).execution = (h.poised.step h.plane).execution ∧
      (h.next .execution).plane = (h.poised.step h.plane).plane ∧
      (h.next .execution).events = h.events ++ (h.poised.event? h.plane).toList ∧
      (h.next .execution).own = h.own ++ h.poised.own h.plane := by
  obtain ⟨call, moved, told⟩ := h.exists_call
  rw [moved, told]
  exact h.move_eq h.poised call

theorem parts_poised (h : WorkHistory κ σ) :
    h.poised.cpu = h.execution.cpu ∧ h.poised.store = h.execution.store := by
  rw [poised]
  split <;> exact ⟨rfl, rfl⟩

/-- No move changes the processor or the store. -/
theorem parts_after (e : Execution κ σ) (p : Plane) (moves : List WorkMove) :
    (after e p moves).execution.cpu = e.cpu ∧ (after e p moves).execution.store = e.store := by
  induction moves using List.reverseRecOn with
  | nil => exact ⟨rfl, rfl⟩
  | append_singleton moves m ih =>
    rw [after_concat]
    cases m with
    | request d => exact ih
    | run q => exact ih
    | execution =>
      obtain ⟨cpu, store⟩ := (after e p moves).poised.parts_step (after e p moves).plane
      rw [(next_execution _).1, cpu, store, (parts_poised _).1, (parts_poised _).2]
      exact ih

/-- A request that is about to be carried out is still in the slot, whatever else was asked for. -/
theorem pending_after (e : Execution κ σ) (p : Plane) (moves : List WorkMove) {d : Deferred}
    (storing : (after e p moves).execution.phase = .storing d) :
    (after e p moves).plane.slot.pending = some d := by
  induction moves using List.reverseRecOn with
  | nil => cases storing
  | append_singleton moves m ih =>
    rw [after_concat] at storing ⊢
    cases m with
    | request d' =>
      have kept := ih storing
      simp only [next, Slot.request, kept]
    | run q => exact ih storing
    | execution =>
      rw [(next_execution _).1] at storing
      rw [(next_execution _).2.1]
      exact Execution.pending_of_storing storing

/-- What counters, events and effects have to do with each other. -/
structure Tallies (summary : ExecutionSummary) (events : List TickEvent) (own : List Effect) :
    Prop where
  work : summary.saves + summary.loads + summary.failed = events.countP TickEvent.isWork
  loads : summary.loads = events.countP TickEvent.isLoad
  own : own = List.replicate summary.loads .invalidatedAll

/-- Carrying out a request is counted once. -/
theorem Tallies.carriedOut {summary : ExecutionSummary} {events : List TickEvent}
    {own : List Effect} (tallies : Tallies summary events own) (d : Deferred) (succeeded : Bool)
    (left : Option Deferred) (voids : List Effect) :
    Tallies (summary.count d.kind succeeded) (events ++ [.carriedOut d succeeded left voids])
      (own ++ Execution.voided d succeeded) where
  work := by
    rw [ExecutionSummary.work_count, tallies.work, List.countP_append]
    rfl
  loads := by
    rw [ExecutionSummary.loads_count, tallies.loads, List.countP_append, List.countP_singleton,
      TickEvent.isLoad]
    cases succeeded && d.kind = .load <;> rfl
  own := by
    rw [ExecutionSummary.loads_count, tallies.own, Execution.voided,
      ← List.replicate_append_replicate]
    cases succeeded && d.kind = .load <;> rfl

/-- Any other move leaves these counters alone. -/
theorem Tallies.other {summary : ExecutionSummary} {events : List TickEvent} {own : List Effect}
    (tallies : Tallies summary events own) {event : Option TickEvent}
    (idle : ∀ e ∈ event, e.isWork = false) (ticks : Nat) :
    Tallies { summary with ticks := ticks } (events ++ event.toList) (own ++ []) := by
  have none_done : event.toList.countP TickEvent.isWork = 0 ∧
      event.toList.countP TickEvent.isLoad = 0 := by
    rcases event with _ | e
    · exact ⟨rfl, rfl⟩
    · cases e with
      | carriedOut d succeeded left own => cases idle _ rfl
      | _ => exact ⟨rfl, rfl⟩
  refine ⟨?_, ?_, ?_⟩
  · rw [List.countP_append, none_done.1]
    exact tallies.work
  · rw [List.countP_append, none_done.2]
    exact tallies.loads
  · rw [List.append_nil]
    exact tallies.own

/-- One move keeps the counters in step with what is done. -/
theorem Tallies.step {events : List TickEvent} {own : List Effect}
    (tallies : Tallies e.summary events own) (p : Plane) :
    Tallies (e.step p).execution.summary (events ++ (e.event? p).toList) (own ++ e.own p) := by
  rcases e.step_cases p with ⟨d, phase, stepped⟩ | ⟨phase, stepped⟩ | passive
  · rw [Execution.own_of_storing phase, Execution.event?, stepped]
    simp only [phase]
    exact tallies.carriedOut d _ _ _
  · rw [Execution.own_of_slice phase, Execution.event?, stepped, Execution.runSlice]
    simp only [phase]
    split
    · exact tallies.other (by rintro _ ⟨⟩; rfl) _
    · exact tallies.other (by rintro _ ⟨⟩; rfl) _
  · rw [passive.summary, passive.own]
    exact tallies.other passive.idle _

/-- A tick is counted when its slice is over. -/
theorem ticks_step (e : Execution κ σ) (p : Plane) :
    (e.step p).execution.summary.ticks =
      e.summary.ticks + if (e.step p).execution.phase = .between then 1 else 0 := by
  rcases e.step_cases p with ⟨d, -, stepped⟩ | ⟨-, stepped⟩ | passive
  · rw [stepped]
    exact e.summary.ticks_count _ _
  · rw [stepped, Execution.runSlice]
    split <;> rfl
  · rw [passive.summary, if_neg passive.ne_between, Nat.add_zero]

theorem maxTicks_step (e : Execution κ σ) (p : Plane) :
    (e.step p).execution.maxTicks = e.maxTicks := by
  rcases e.step_cases p with ⟨d, -, stepped⟩ | ⟨-, stepped⟩ | passive
  · rw [stepped]
    rfl
  · rw [stepped, Execution.runSlice]
    split <;> rfl
  · rw [passive.spares.execution]

/-- There are no more ticks than were asked for, and one that is under way is not one too many. -/
def Within (e : Execution κ σ) : Prop :=
  ∀ n, e.maxTicks = some n → e.summary.ticks ≤ n ∧ (e.phase.InTick → e.summary.ticks < n)

theorem Within.step (within : Within e) (p : Plane) : Within (e.step p).execution := by
  intro n limited
  rw [maxTicks_step] at limited
  obtain ⟨le, lt⟩ := within n limited
  rcases e.step_cases p with ⟨d, phase, stepped⟩ | ⟨phase, stepped⟩ | passive
  · rw [phase] at lt
    rw [stepped, Execution.carryOut, ExecutionSummary.ticks_count]
    exact ⟨le, fun _ => lt trivial⟩
  · rw [phase] at lt
    rw [stepped, Execution.runSlice]
    split
    · exact ⟨le, nofun⟩
    · exact ⟨lt trivial, nofun⟩
  · rw [passive.summary]
    refine ⟨le, fun going => ?_⟩
    rcases passive.inTick going with before | ⟨-, left⟩
    · exact lt before
    · rw [Execution.exhausted, limited] at left
      simpa using left

/-- What every history keeps to. -/
structure Sound (limit : Option Nat) (h : WorkHistory κ σ) : Prop where
  settled : ∀ call ∈ h.past, call.TurnedAway ∨ call.WentThrough
  underway : ∀ call, h.current = some call → h.execution.phase ≠ .between ∧
    call.Reached h.execution.phase h.execution.summary
  tallies : Tallies h.execution.summary h.events h.own
  ticks : h.execution.summary.ticks = h.past.countP TickCall.isTick
  within : Within h.execution
  limit : h.execution.maxTicks = limit

/-- A move of a call that has got this far. -/
theorem Sound.move {limit : Option Nat} (sound : h.Sound limit)
    (events : h.events = h.past.flatMap TickCall.events ++ call.events)
    (counters : e.summary = h.execution.summary) (within : Within e) (limited : e.maxTicks = limit)
    (reached : (call.add (e.event? h.plane)).Reached (e.step h.plane).execution.phase
      (e.step h.plane).execution.summary) :
    (h.move e call).Sound limit := by
  have tallies := (counters ▸ sound.tallies : Tallies e.summary _ _).step h.plane
  have ticks := ticks_step e h.plane
  have within := within.step h.plane
  have limited := (maxTicks_step e h.plane).trans limited
  rw [counters, sound.ticks] at ticks
  have tallied (returned : Option (Gate × ExecutionSummary)) :
      Tallies (e.step h.plane).execution.summary
        ((h.past ++ [{ call.add (e.event? h.plane) with returned := returned }]).flatMap
          TickCall.events) (h.own ++ e.own h.plane) := by
    rw [List.flatMap_append, List.flatMap_singleton]
    rwa [events, List.append_assoc] at tallies
  rw [WorkHistory.move]
  generalize e.step h.plane = next at *
  cases phase : next.execution.phase with
  | between =>
    rw [phase] at ticks reached
    obtain ⟨work, consumed, now⟩ := reached
    have through : TickCall.WentThrough { call.add (e.event? h.plane) with
        returned := some (.proceed, next.execution.summary) } := ⟨work, consumed, by rw [now]⟩
    refine ⟨?_, nofun, ?_, ?_, within, limited⟩
    · exact List.forall_mem_append.2 ⟨sound.settled, List.forall_mem_singleton.2 (.inr through)⟩
    · rw [WorkHistory.events, calls, Option.toList_none, List.append_nil]
      exact tallied _
    · rw [List.countP_append]
      exact ticks
  | stopped =>
    rw [phase] at ticks reached
    obtain ⟨idle, kept⟩ := reached
    have away : TickCall.TurnedAway { call.add (e.event? h.plane) with
        returned := some (.shutdown, next.execution.summary) } := ⟨idle, by rw [kept]⟩
    refine ⟨?_, nofun, ?_, ?_, within, limited⟩
    · exact List.forall_mem_append.2 ⟨sound.settled, List.forall_mem_singleton.2 (.inl away)⟩
    · rw [WorkHistory.events, calls, Option.toList_none, List.append_nil]
      exact tallied _
    · rw [List.countP_append]
      exact ticks
  | _ =>
    rw [phase] at ticks reached
    refine ⟨sound.settled, ?_, tallied call.returned, ticks, within, limited⟩
    rintro _ ⟨⟩
    rw [phase]
    exact ⟨nofun, reached⟩

theorem Sound.next {limit : Option Nat} (sound : h.Sound limit) (m : WorkMove) :
    (h.next m).Sound limit := by
  cases m with
  | request d =>
    exact ⟨sound.settled, sound.underway, sound.tallies, sound.ticks, sound.within, sound.limit⟩
  | run q =>
    exact ⟨sound.settled, sound.underway, sound.tallies, sound.ticks, sound.within, sound.limit⟩
  | execution =>
    rw [WorkHistory.next]
    cases now : h.current with
    | some call =>
      obtain ⟨underway, reached⟩ := sound.underway call now
      refine sound.move ?_ rfl sound.within sound.limit (TickCall.reached_step reached underway)
      rw [WorkHistory.events, calls, now, List.flatMap_append, Option.toList_some,
        List.flatMap_singleton]
    | none =>
      refine sound.move ?_ rfl (fun n limited => ⟨(sound.within n limited).1, nofun⟩) sound.limit
        (TickCall.reached_begin rfl)
      rw [WorkHistory.events, calls, now, Option.toList_none, List.append_nil, List.append_nil]

theorem sound_after (e : Execution κ σ) (p : Plane) (moves : List WorkMove) :
    (after e p moves).Sound e.maxTicks := by
  induction moves using List.reverseRecOn with
  | nil =>
    exact ⟨List.forall_mem_nil _, nofun, ⟨rfl, rfl, rfl⟩, rfl,
      fun n _ => ⟨Nat.zero_le n, nofun⟩, rfl⟩
  | append_singleton moves m ih =>
    rw [after_concat]
    exact ih.next m

/-- Deferred work is done once in a tick and only there. After any run, whatever the processor and
the store: a call that returned was turned away, and then it did nothing and left the counters; or it
went through, and then it passed the gate, carried out what it found in the slot, if anything, left
the slot empty, ran a slice and counted a tick. A call under way has got just as far as its phase
says, and a request that it is about to carry out is still in the slot. The next move is told by its
event and comes to what that says: a request is carried out by one call of the store, a slice is one
call of the processor, and nothing else is changed by them or by any other move
(`Execution.Yields`). The effects of a move are those of the store or the processor and then its
own. As many requests are counted as were carried out, as many ticks as went through; and of its own
accord the execution side has voided all compiled code once for each load, just after it, and has
done nothing else on the bus. There are no more ticks than were asked for. -/
theorem deferred_work (e : Execution κ σ) (p : Plane) (moves : List WorkMove) :
    let h := after e p moves
    let summary := h.execution.summary
    let next := h.poised.step h.plane
    (∀ call ∈ h.past, call.TurnedAway ∨ call.WentThrough) ∧
      (∀ call, h.current = some call → call.Reached h.execution.phase summary) ∧
      (∀ d, h.execution.phase = .storing d → h.plane.slot.pending = some d) ∧
      (h.poised.cpu = e.cpu ∧ h.poised.store = e.store) ∧
      ((h.next .execution).execution = next.execution ∧ (h.next .execution).plane = next.plane ∧
        (h.next .execution).events = h.events ++ (h.poised.event? h.plane).toList ∧
        h.poised.Yields h.plane next (h.poised.event? h.plane)) ∧
      (next.effects = h.poised.foreign h.plane ++ h.poised.own h.plane ∧
        (h.next .execution).own = h.own ++ h.poised.own h.plane) ∧
      summary.saves + summary.loads + summary.failed = h.events.countP TickEvent.isWork ∧
      summary.loads = h.events.countP TickEvent.isLoad ∧
      h.own = List.replicate summary.loads .invalidatedAll ∧
      summary.ticks = h.past.countP TickCall.isTick ∧
      ∀ n, e.maxTicks = some n → summary.ticks ≤ n := by
  intro h summary next
  have sound : h.Sound e.maxTicks := sound_after e p moves
  obtain ⟨execution, plane, events, own⟩ := h.next_execution
  refine ⟨sound.settled, fun call now => (sound.underway call now).2,
    fun d => pending_after e p moves, ?_, ⟨execution, plane, events, h.poised.step_yields h.plane⟩,
    ⟨h.poised.effects_step h.plane, own⟩, sound.tallies.work, sound.tallies.loads,
    sound.tallies.own, sound.ticks,
    fun n limited => (sound.within n (sound.limit.trans limited)).1⟩
  obtain ⟨cpu, store⟩ := parts_after e p moves
  exact ⟨h.parts_poised.1.trans cpu, h.parts_poised.2.trans store⟩

end WorkHistory

end ConsoleBus
