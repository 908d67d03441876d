import ConsoleBus.Proofs.Answers
import ConsoleBus.Proofs.HookSeparation
import ConsoleBus.Proofs.OrderlyExit

/-!
A drill and as many pokes. What a request sends as its answer reaches neither the bus nor the hooks,
so machines that differ in their channels alone go on agreeing (`Machine.Agree.next`), and requests
in a row are to the machine just their commands in a row (`Plane.agree_dispatchAll`). A drill and
its pokes are the same commands. They differ in their answers only, and the address alone decides
which these are (`Plane.drill_eq_pokes`).
-/

namespace ConsoleBus

open PageTable

/-! ### Messages of each kind -/

namespace Notification

/-- The hook event of a message. -/
def event? : Notification → Option HookEvent
  | hookFired event => some event
  | status _ => none

/-- The status of a message. -/
def status? : Notification → Option Status
  | hookFired _ => none
  | status s => some s

theorem events_of_parts (fired : List HookEvent) (answers : List Status) :
    (fired.map hookFired ++ answers.map status).filterMap event? = fired := by
  simp [List.filterMap_append, List.filterMap_map, Function.comp_def, event?]

theorem statuses_of_parts (fired : List HookEvent) (answers : List Status) :
    (fired.map hookFired ++ answers.map status).filterMap status? = answers := by
  simp [List.filterMap_append, List.filterMap_map, Function.comp_def, status?]

end Notification

/-! ### Machines that differ in their channels -/

namespace Machine

variable {m m' m'' : Machine} {specs : List HookSpec} {addr : Address}

/-- The machines share the bus and all hooks. -/
structure Agree (m m' : Machine) : Prop where
  bus : m'.bus = m.bus
  registry : m'.registry = m.registry

/-- The effects of commands on the bus. -/
def effects (m : Machine) (cs : List Command) : List Effect := (m.performAll cs).2.2

namespace Agree

theorem refl (m : Machine) : m.Agree m := ⟨rfl, rfl⟩

theorem trans (first : m.Agree m') (second : m'.Agree m'') : m.Agree m'' :=
  ⟨second.bus.trans first.bus, second.registry.trans first.registry⟩

theorem symm (agree : m.Agree m') : m'.Agree m := ⟨agree.bus.symm, agree.registry.symm⟩

/-- The channel is all that is left. -/
theorem eq_with (agree : m.Agree m') : m' = { m with notifier := m'.notifier } := by
  obtain ⟨bus, registry, notifier⟩ := m'
  obtain rfl : bus = m.bus := agree.bus
  obtain rfl : registry = m.registry := agree.registry
  rfl

theorem serves (agree : m.Agree m') (hm : m.Serves specs) : m'.Serves specs :=
  ⟨agree.bus ▸ hm.isolation, agree.registry ▸ hm.registry⟩

theorem alike (agree : m.Agree m') (k : UInt8) : Alike k m m' :=
  ⟨agree.bus, by rw [agree.registry]⟩

theorem events (agree : m.Agree m') (c : Command) : m'.events c = m.events c := by
  rw [Machine.events, Machine.events, (agree.alike 0).stimulus, (agree.alike 0).bus_next,
    agree.registry]

theorem next (agree : m.Agree m') (hm : m.Serves specs) (c : Command) :
    (m.next c).Agree (m'.next c) := by
  refine ⟨(agree.alike 0).bus_next c, ?_⟩
  rw [(next_spec hm c).1, (next_spec (agree.serves hm) c).1, (agree.alike 0).stimulus,
    (agree.alike 0).bus_next, agree.registry]

/-- Machines that agree do so after any commands, with the same events on the way. -/
theorem after (agree : m.Agree m') (hm : m.Serves specs) (cs : List Command) :
    (m.after cs).Agree (m'.after cs) ∧ m'.log cs = m.log cs := by
  induction cs generalizing m m' with
  | nil => exact ⟨agree, rfl⟩
  | cons c cs ih =>
    obtain ⟨later, logged⟩ := ih (agree.next hm c) (hm.next c)
    exact ⟨later, by rw [log, log, agree.events, logged]⟩

/-- A command has the same effects on both. -/
theorem perform_effects (agree : m.Agree m') (c : Command) :
    (m'.perform c).2.2 = (m.perform c).2.2 := by
  obtain ⟨bus, registry, notifier⟩ := m
  obtain ⟨bus', registry', notifier'⟩ := m'
  obtain rfl : bus' = bus := agree.bus
  cases c with
  | loadBios image =>
    simp only [perform]
    cases bus'.memory.loadBios image <;> rfl
  | poke region offset bytes =>
    simp only [perform]
    split <;> rfl
  | _ => rfl

theorem effects (agree : m.Agree m') (hm : m.Serves specs) (cs : List Command) :
    m'.effects cs = m.effects cs := by
  induction cs generalizing m m' with
  | nil => rfl
  | cons c cs ih =>
    have later := ih (agree.next hm c) (hm.next c)
    change (m'.perform c).2.2 ++ (m'.next c).effects cs = _
    rw [agree.perform_effects, later]
    rfl

end Agree

theorem effects_append (m : Machine) (cs later : List Command) :
    m.effects (cs ++ later) = m.effects cs ++ (m.after cs).effects later := by
  induction cs generalizing m with
  | nil => rfl
  | cons c cs ih =>
    change (m.perform c).2.2 ++ (m.next c).effects (cs ++ later) = _
    rw [ih, ← List.append_assoc]
    rfl

/-- Stores through the handle have the effects of as many commands. -/
theorem effects_storeTimes (m : Machine) (addr : Address) (value : UInt8) (n : Nat) :
    (Plane.storeTimes m addr value n).2.2 =
      m.effects (List.replicate n (.handleWrite addr value)) := by
  cases place : powerOnWrite.locate addr with
  | ok loc =>
    induction n generalizing m with
    | zero => rfl
    | succ n ih =>
      have taken := storeByHandle_of_ok place m value
      have step : m.effects (List.replicate (n + 1) (.handleWrite addr value)) =
          (m.storeByHandle addr value).2.2 ++ (m.storeByHandle addr value).2.1.effects
            (List.replicate n (.handleWrite addr value)) := rfl
      rw [step, Plane.storeTimes]
      generalize m.storeByHandle addr value = first at taken ⊢
      obtain ⟨outcome, next, effects⟩ := first
      obtain rfl : outcome = .ok () := taken
      exact congrArg (effects ++ ·) (ih next)
  | error e =>
    have none : m.effects (List.replicate n (.handleWrite addr value)) = [] := by
      induction n with
      | zero => rfl
      | succ n ih =>
        change (m.storeByHandle addr value).2.2 ++ (m.storeByHandle addr value).2.1.effects _ = []
        rw [storeByHandle_of_error place]
        exact ih
    rw [none]
    cases n with
    | zero => rfl
    | succ n => rw [Plane.storeTimes_of_error place]

end Machine

/-! ### Requests that store -/

namespace Request

variable (addr : Address) (value : UInt8)

/-- The request stores the byte `n` times, and `done` says that it has. -/
structure Stores (r : Request) (addr : Address) (value : UInt8) (n : Nat) (done : Status) :
    Prop where
  commands : r.commands = List.replicate n (.handleWrite addr value)
  handle : ∀ p : Plane, p.handle r = p.storeAndAnswer addr value n done

theorem Stores.poke : (Request.poke addr value).Stores addr value 1 .byteWritten :=
  ⟨rfl, fun _ => rfl⟩

theorem Stores.drill (count : UInt8) :
    (Request.drill addr value count).Stores addr value count.toNat .drillFinished :=
  ⟨rfl, fun _ => rfl⟩

end Request

namespace Plane

variable {p : Plane} {specs : List HookSpec}

/-! ### Requests in a row -/

/-- The messages that a request sends: what the hooks report, and then its answer. -/
def messages (p : Plane) (r : Request) : List Notification :=
  (p.machine.log r.commands).map .hookFired ++ (p.answer r).toList.map .status

/-- The messages of requests in a row. -/
def conversation (p : Plane) : List Request → List Notification
  | [] => []
  | r :: rs => p.messages r ++ (p.dispatch r).1.conversation rs

/-- The commands of requests in a row. -/
def commandsOf (rs : List Request) : List Command := rs.flatMap Request.commands

/-- To the bus and the hooks a request is its commands. -/
theorem agree_dispatch (p : Plane) (r : Request) :
    (p.machine.after r.commands).Agree (p.dispatch r).1.machine := by
  rw [dispatch, statuses_eq, ← machine_handle]
  exact ⟨rfl, rfl⟩

/-- So requests in a row are their commands in a row, and the hooks report the same. -/
theorem agree_dispatchAll (ready : p.Ready specs) (rs : List Request) :
    (p.machine.after (commandsOf rs)).Agree (p.dispatchAll rs).1.machine ∧
      (p.conversation rs).filterMap Notification.event? = p.machine.log (commandsOf rs) := by
  induction rs generalizing p with
  | nil => exact ⟨.refl _, rfl⟩
  | cons r rs ih =>
    obtain ⟨agree, fired⟩ := ih (ready.dispatch r)
    obtain ⟨later, logged⟩ :=
      (p.agree_dispatch r).after (ready.machine.after r.commands) (commandsOf rs)
    have split : commandsOf (r :: rs) = r.commands ++ commandsOf rs := List.flatMap_cons
    refine ⟨?_, ?_⟩
    · rw [split, Machine.after_append]
      exact later.trans agree
    · rw [split, Machine.log_append, conversation, List.filterMap_append, fired, logged, messages,
        Notification.events_of_parts]

/-- What is sent over requests in a row are their messages. -/
theorem notifier_dispatchAll (ready : p.Ready specs) (rs : List Request) :
    (p.dispatchAll rs).1.machine.notifier = p.machine.notifier.sendAll (p.conversation rs) := by
  induction rs generalizing p with
  | nil => rfl
  | cons r rs ih =>
    rw [conversation, Notifier.sendAll_append, messages, ← notifier_dispatch ready.machine]
    exact ih (ready.dispatch r)

/-- Requests that are answered alike in every state. -/
theorem statuses_conversation {r : Request} {s : Status}
    (answers : ∀ q : Plane, q.answer r = some s) (p : Plane) (n : Nat) :
    (p.conversation (List.replicate n r)).filterMap Notification.status? = List.replicate n s := by
  induction n generalizing p with
  | zero => rfl
  | succ n ih =>
    rw [List.replicate_succ, conversation, List.filterMap_append, ih, messages,
      Notification.statuses_of_parts, answers]
    rfl

/-- Requests that send one and the same message in every state. -/
theorem conversation_replicate {r : Request} {message : Notification}
    (sends : ∀ q : Plane, q.Ready specs → q.messages r = [message]) (ready : p.Ready specs)
    (n : Nat) : p.conversation (List.replicate n r) = List.replicate n message := by
  induction n generalizing p with
  | zero => rfl
  | succ n ih =>
    rw [List.replicate_succ, conversation, sends p ready, ih (ready.dispatch r)]
    rfl

theorem dispatchAll_cons (p : Plane) (r : Request) (rs : List Request) :
    p.dispatchAll (r :: rs) = (((p.dispatch r).1.dispatchAll rs).1,
      (p.dispatch r).2 ++ ((p.dispatch r).1.dispatchAll rs).2) := rfl

/-! ### Stores -/

section stores

variable {r : Request} {addr : Address} {value : UInt8} {n : Nat} {done : Status}

/-- All that stores change is the machine. -/
theorem dispatch_of_stores (stores : r.Stores addr value n done) (p : Plane) :
    (p.dispatch r).1 = { p with machine := (p.dispatch r).1.machine } := by
  rw [dispatch, statuses_eq, stores.handle, storeAndAnswer_plane]

/-- Their effects are those of the commands. -/
theorem effects_of_stores (stores : r.Stores addr value n done) (p : Plane) :
    (p.dispatch r).2 = p.machine.effects r.commands := by
  rw [stores.commands, ← p.machine.effects_storeTimes, dispatch, stores.handle]
  rfl

/-- Where memory takes the byte, the request is carried out. -/
theorem answer_of_stores {loc : Location} (stores : r.Stores addr value n done)
    (place : powerOnWrite.locate addr = .ok loc) (p : Plane) : p.answer r = some done := by
  rw [answer, stores.handle, storeAndAnswer]
  simp only [(storeTimes_of_ok place p.machine value n).1, answerOf]

/-- Where it does not, the request is refused, if it stores at all. Then nothing is sent but that,
and nothing changes. -/
theorem refusal_of_stores {e : MemoryError} (stores : r.Stores addr value (n + 1) done)
    (nowhere : powerOnWrite.locate addr = .error e) (ready : p.Ready specs) :
    p.messages r = [.status .failed] ∧ p.dispatch r = (p.status .failed, []) := by
  have handled : p.handle r = ⟨.error (.memory e), p, []⟩ := by
    rw [stores.handle, storeAndAnswer, storeTimes_of_error nowhere]
  constructor
  · rw [messages, stores.commands, Machine.log_of_error ready.machine nowhere, answer, handled]
    rfl
  · rw [dispatch, handled]
    rfl

theorem commandsOf_pokes (addr : Address) (value : UInt8) (n : Nat) :
    commandsOf (List.replicate n (.poke addr value)) =
      List.replicate n (.handleWrite addr value) := by
  rw [commandsOf, List.flatMap_replicate]
  exact List.flatten_replicate_singleton

/-- Pokes in a row change the machine alone too. -/
theorem dispatchAll_pokes (p : Plane) (addr : Address) (value : UInt8) (n : Nat) :
    (p.dispatchAll (List.replicate n (.poke addr value))).1 =
      { p with machine := (p.dispatchAll (List.replicate n (.poke addr value))).1.machine } := by
  induction n generalizing p with
  | zero => rfl
  | succ n ih =>
    rw [List.replicate_succ, dispatchAll_cons, ih (p.dispatch (.poke addr value)).1,
      dispatch_of_stores (.poke addr value)]

/-- Their effects too are those of the commands. -/
theorem effects_pokes (ready : p.Ready specs) (addr : Address) (value : UInt8) (n : Nat) :
    (p.dispatchAll (List.replicate n (.poke addr value))).2 =
      p.machine.effects (List.replicate n (.handleWrite addr value)) := by
  induction n generalizing p with
  | zero => rfl
  | succ n ih =>
    have first := effects_of_stores (.poke addr value) p
    have later := (p.agree_dispatch (.poke addr value)).effects (ready.machine.after _)
      (List.replicate n (.handleWrite addr value))
    have split := p.machine.effects_append [.handleWrite addr value]
      (List.replicate n (.handleWrite addr value))
    rw [List.replicate_succ, dispatchAll_cons, ih (ready.dispatch _), later, first]
    exact split.symm

end stores

/-- A drill is a sequence of pokes. In every state that a session comes through, it leaves the plane
as the pokes do, but for what the channel has taken, and has the same effects on the bus; and of what
the channel takes, the hook events are the same in the same order. Either each poke is answered with
5 and the drill with 6, once and at its end; or each is answered with 16 and nothing else, and so is
the drill, once, and it changes nothing. -/
theorem drill_eq_pokes (reached : Reachable specs p) (addr : Address) (value : UInt8)
    {count : UInt8} (positive : count ≠ 0) :
    let drill := Request.drill addr value count
    let pokes := List.replicate count.toNat (Request.poke addr value)
    let drilled := p.dispatch drill
    let poked := p.dispatchAll pokes
    (drilled.1 = { poked.1 with machine :=
        { poked.1.machine with notifier := drilled.1.machine.notifier } } ∧
      drilled.2 = poked.2) ∧
      (drilled.1.machine.notifier.sink.accepted =
          p.machine.notifier.sink.accepted ++ Notification.encodeAll (p.messages drill) ∧
        poked.1.machine.notifier.sink.accepted =
          p.machine.notifier.sink.accepted ++ Notification.encodeAll (p.conversation pokes)) ∧
      (p.messages drill).filterMap Notification.event? =
        (p.conversation pokes).filterMap Notification.event? ∧
      ((p.conversation pokes).filterMap Notification.status? =
            List.replicate count.toNat .byteWritten ∧
          p.messages drill =
            ((p.conversation pokes).filterMap Notification.event?).map .hookFired ++
              [.status .drillFinished] ∨
        p.conversation pokes = List.replicate count.toNat (.status .failed) ∧
          p.messages drill = [.status .failed] ∧ drilled = (p.status .failed, [])) := by
  intro drill pokes drilled poked
  have ready := reached.ready
  have stores : drill.Stores addr value count.toNat .drillFinished := .drill addr value count
  obtain ⟨agree, fired⟩ := agree_dispatchAll ready pokes
  rw [commandsOf_pokes] at agree fired
  have reported : (p.messages drill).filterMap Notification.event? =
      p.machine.log (List.replicate count.toNat (.handleWrite addr value)) :=
    Notification.events_of_parts _ _
  refine ⟨⟨?_, ?_⟩, ⟨?_, ?_⟩, reported.trans fired.symm, ?_⟩
  · -- the plane
    have drilledOnly : drilled.1 = { p with machine := drilled.1.machine } :=
      dispatch_of_stores stores p
    have pokedOnly : poked.1 = { p with machine := poked.1.machine } :=
      p.dispatchAll_pokes addr value count.toNat
    have same : drilled.1.machine =
        { poked.1.machine with notifier := drilled.1.machine.notifier } :=
      (agree.symm.trans (p.agree_dispatch drill)).eq_with
    rw [pokedOnly, ← same]
    exact drilledOnly
  · -- the effects
    exact (effects_of_stores stores p).trans (effects_pokes ready addr value count.toNat).symm
  · -- the channel
    rw [notifier_dispatch ready.machine]
    exact (Notifier.sendAll_spec ready.sink _).1
  · rw [notifier_dispatchAll ready]
    exact (Notifier.sendAll_spec ready.sink _).1
  · -- the answers
    cases place : powerOnWrite.locate addr with
    | ok loc =>
      have each := answer_of_stores (.poke addr value) place
      refine .inl ⟨statuses_conversation each p count.toNat, ?_⟩
      rw [fired, messages, answer_of_stores stores place]
      rfl
    | error e =>
      obtain ⟨n, hn⟩ : ∃ n, count.toNat = n + 1 := Nat.exists_eq_succ_of_ne_zero fun zero =>
        positive (UInt8.toNat.inj zero)
      rw [hn] at stores
      have each (q : Plane) (hq : q.Ready specs) :
          q.messages (.poke addr value) = [.status .failed] :=
        (refusal_of_stores (.poke addr value) place hq).1
      exact .inr ⟨conversation_replicate each ready count.toNat,
        refusal_of_stores stores place ready⟩

/-- Three stores below a hook that repeats nothing. -/
theorem three_pokes_drilled :
    let spec : HookSpec := { key := 4, start := 0x100, length := 1, dedupe := true }
    let p : Plane := { machine := { registry := Registry.empty.register spec } }
    let drill := Request.drill 0x80000100 7 3
    let pokes := List.replicate 3 (Request.poke 0x80000100 7)
    Reachable [spec] p ∧ (3 : UInt8) ≠ 0 ∧
      (p.dispatch drill).2 = (p.dispatchAll pokes).2 ∧
      (p.messages drill).filterMap Notification.event? =
        (p.conversation pokes).filterMap Notification.event? ∧
      p.answer drill = some .drillFinished ∧
      (p.conversation pokes).filterMap Notification.status? =
        [.byteWritten, .byteWritten, .byteWritten] := by
  intro spec p drill pokes
  have fresh : p.machine.Fresh [spec] :=
    Machine.fresh_register ⟨by decide, by decide, .ram, by decide, by decide, by decide⟩
  have reached : Reachable [spec] p := .start fresh Sink.reliable_new rfl
  have positive : (3 : UInt8) ≠ 0 := by decide
  have place : powerOnWrite.locate 0x80000100 = .ok ⟨.ram, 0x100⟩ := rfl
  obtain ⟨⟨-, effects⟩, -, events, -⟩ := drill_eq_pokes reached 0x80000100 7 positive
  exact ⟨reached, positive, effects, events,
    answer_of_stores (.drill 0x80000100 7 3) place p,
    statuses_conversation (answer_of_stores (.poke 0x80000100 7) place) p 3⟩

end Plane

end ConsoleBus
