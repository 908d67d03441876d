import ConsoleBus.Proofs.CodeCoherence
import ConsoleBus.Proofs.Dispatch

/-!
Answers to requests. Whatever a session has been through, its hooks still serve their list, its
channel still delivers, and its segments still come from memory (`Plane.Reachable.ready`). In such a
state a request sends what the hooks report of its stores and then its answer, which is one byte or
none; and a request that is answered with a failure has done nothing but answer
(`Plane.answered_once`).
-/

namespace ConsoleBus

/-- Status bytes are their own encodings. -/
theorem Notification.encodeAll_statuses (ss : List Status) :
    encodeAll (ss.map .status) = ss.map Status.code := by
  rw [encodeAll, List.flatMap_map, List.map_eq_flatMap]
  rfl

/-- After a run the channel still delivers. -/
theorem Machine.reliable_after {m : Machine} {specs : List HookSpec} (hm : m.Serves specs)
    (reliable : m.notifier.sink.Reliable) (cs : List Command) :
    (m.after cs).notifier.sink.Reliable := by
  rw [notifier_after hm]
  exact (Notifier.report_spec reliable _).2.2.2

namespace Plane

variable {p : Plane} {specs : List HookSpec}

/-! ### The states of a session -/

/-- The states that a session comes through. It starts with a new machine, anything else being as it
may. From then on requests are dispatched, others act on the plane and on the host, and the
execution side moves, whatever processor and state store it has. -/
inductive Reachable (specs : List HookSpec) : Plane → Prop
  | start {p : Plane} (machine : p.machine.Fresh specs) (sink : p.machine.notifier.sink.Reliable)
      (provider : p.query.provider = .memory) : Reachable specs p
  | dispatch {p : Plane} (before : Reachable specs p) (r : Request) :
      Reachable specs (p.dispatch r).1
  | perform {p : Plane} (before : Reachable specs p) (a : Action) :
      Reachable specs (p.perform a).2.1
  | host {p : Plane} (before : Reachable specs p) (h : Host) : Reachable specs { p with host := h }
  | execution {p : Plane} (before : Reachable specs p) {κ σ : Type} (e : Execution κ σ)
      (cpu : e.cpu.Issues fun _ => True) (store : e.store.Careful) :
      Reachable specs (e.step p).plane

/-- What requests rely on. -/
structure Ready (p : Plane) (specs : List HookSpec) : Prop where
  machine : p.machine.Serves specs
  sink : p.machine.notifier.sink.Reliable
  provider : p.query.provider = .memory

namespace Ready

/-- Sending does no harm. -/
theorem sendAll (ready : p.Ready specs) (ns : List Notification) :
    Ready { p with machine := { p.machine with notifier := p.machine.notifier.sendAll ns } } specs :=
  ⟨⟨ready.machine.isolation, ready.machine.registry⟩,
    (Notifier.sendAll_spec ready.sink ns).2.2.2, ready.provider⟩

theorem statuses (ready : p.Ready specs) (ss : List Status) : (p.statuses ss).Ready specs := by
  rw [statuses_eq]
  exact ready.sendAll _

/-- Nor do commands to the machine, whatever happens to the rest. -/
theorem commands (ready : p.Ready specs) (cs : List Command) {q : Plane}
    (machine : q.machine = p.machine.after cs) (provider : q.query.provider = p.query.provider) :
    q.Ready specs := by
  refine ⟨?_, ?_, provider.trans ready.provider⟩
  · rw [machine]
    exact ready.machine.after cs
  · rw [machine]
    exact Machine.reliable_after ready.machine ready.sink cs

theorem dispatch (ready : p.Ready specs) (r : Request) : (p.dispatch r).1.Ready specs :=
  (ready.commands r.commands (p.machine_handle r) (p.provider_handle r)).statuses _

theorem perform (ready : p.Ready specs) (a : Action) : (p.perform a).2.1.Ready specs := by
  cases a with
  | command c => exact ready.commands [c] rfl rfl
  | finishRecording =>
    cases recording : p.frontend.recording with
    | none =>
      simp only [Plane.perform, Frontend.finishRecording, recording]
      exact ready
    | some path =>
      have sent := ready.sendAll [.status .audioRecordingFinished]
      simp only [Plane.perform, Frontend.finishRecording, recording]
      exact ⟨sent.machine, sent.sink, sent.provider⟩
  | slot a => exact ⟨ready.machine, ready.sink, ready.provider⟩
  | run r => exact ⟨ready.machine, ready.sink, ready.provider⟩
  | recording => exact ready

/-- A move of the execution side: only a save, a load or a slice reaches the machine. -/
theorem step (ready : p.Ready specs) {κ σ : Type} {e : Execution κ σ}
    (cpu : e.cpu.Issues fun _ => True) (store : e.store.Careful) :
    (e.step p).plane.Ready specs := by
  unfold Execution.step
  cases e.phase with
  | between =>
    simp only
    split
    · exact ready
    · exact ⟨ready.machine, ready.sink, ready.provider⟩
  | gate phase =>
    have moved : Ready { p with run := (p.run.advance phase).1 } specs :=
      ⟨ready.machine, ready.sink, ready.provider⟩
    exact moved.statuses _
  | deferred =>
    simp only
    split <;> exact ready
  | storing d =>
    obtain ⟨f, mapped⟩ := store.memory e.storage d p.machine p.host.files
    simp only [Execution.carryOut, mapped]
    exact ⟨⟨ready.machine.isolation, ready.machine.registry⟩, ready.sink, ready.provider⟩
  | slice =>
    obtain ⟨cs, -, machine, -⟩ := cpu e.core p.machine
    exact ready.commands cs machine rfl
  | stopped => exact ready
  | crashed => exact ready

end Ready

/-- Every state of a session is such a state. -/
theorem Reachable.ready (reached : Reachable specs p) : p.Ready specs := by
  induction reached with
  | start machine sink provider => exact ⟨machine.serves, sink, provider⟩
  | dispatch _ r ih => exact ih.dispatch r
  | perform _ a ih => exact ih.perform a
  | host _ h ih => exact ⟨ih.machine, ih.sink, ih.provider⟩
  | execution _ e cpu store ih => exact ih.step cpu store

/-! ### Answers -/

/-- The hooks' reports on the stores of a request come first. Then it is answered, by one byte at
most and by one byte if there is a status that says that it was carried out. If the byte is 16 or
15, nothing else has happened: no hook has fired, and the plane is as it was but for that byte. -/
theorem answered_once (reached : Reachable specs p) (r : Request) :
    let answer := p.answer r
    let fired := p.machine.log r.commands
    (p.dispatch r).1.machine.notifier.sink.accepted = p.machine.notifier.sink.accepted ++
        Notification.encodeAll (fired.map .hookFired) ++ answer.toList.map Status.code ∧
      (p.dispatch r).1.machine.notifier.sent =
        p.machine.notifier.sent + fired.length + answer.toList.length ∧
      (r.done?.isSome → answer.isSome) ∧
      ∀ s, answer = some s → s.code = 16 ∨ s.code = 15 →
        fired = [] ∧ p.dispatch r =
          ({ p with machine :=
              { p.machine with notifier := (p.machine.notifier.send (.status s)).2 } }, []) := by
  intro answer fired
  have ready := reached.ready
  have cases := handle_cases ready.machine ready.provider r
  obtain ⟨accepted, sent, -, -⟩ := Notifier.sendAll_spec ready.sink
    (fired.map .hookFired ++ answer.toList.map .status)
  rw [← notifier_dispatch ready.machine] at accepted sent
  refine ⟨?_, ?_, ?_, ?_⟩
  · -- a status is its byte on the wire
    rw [accepted, Notification.encodeAll, List.flatMap_append, ← List.append_assoc]
    exact congrArg _ (Notification.encodeAll_statuses _)
  · rw [sent]
    simp [Nat.add_assoc]
  · intro acknowledged
    rcases cases with done | ⟨silent, -⟩ | ⟨failed | rejected, -⟩
    · rwa [← done] at acknowledged
    · rw [silent] at acknowledged
      cases acknowledged
    · exact Option.isSome_iff_exists.2 ⟨_, failed⟩
    · exact Option.isSome_iff_exists.2 ⟨_, rejected⟩
  · intro s answered code
    obtain ⟨untouched, silent⟩ : p.Untouched (p.handle r) ∧ fired = [] := by
      rcases cases with done | ⟨-, paused | running⟩ | ⟨-, refused⟩
      · exact absurd code (r.code_of_done? (done.symm.trans answered))
      · cases paused.symm.trans answered
        exact absurd code (by decide)
      · cases running.symm.trans answered
        exact absurd code (by decide)
      · exact refused
    refine ⟨silent, ?_⟩
    rw [Plane.dispatch, untouched.1, untouched.2]
    rw [show (answerOf (p.handle r).answer) = some s from answered]
    rfl

/-- With a save pending, a load is turned away, and a drill into a register is refused before its
first store. -/
theorem refused_at_once :
    let spec : HookSpec := { key := 4, start := 0x100, length := 1 }
    let start : Plane := { machine := { registry := Registry.empty.register spec } }
    let p := (start.dispatch (.saveState [0x61])).1
    Reachable [spec] p ∧
      (p.answer (.loadState [0x62]) = some .deferredRejected ∧
        (p.dispatch (.loadState [0x62])).1 = p.status .deferredRejected) ∧
      p.answer (.drill 0x1f801000 1 3) = some .failed ∧
        (p.dispatch (.drill 0x1f801000 1 3)).1 = p.status .failed := by
  intro spec start p
  have fresh : start.machine.Fresh [spec] := by
    refine ⟨rfl, Registry.ofSpecs_eq_ok_iff.2 ⟨fun s hs => ?_, by decide, rfl⟩⟩
    rw [List.mem_singleton.1 hs]
    exact ⟨by decide, by decide, .ram, by decide, by decide, by decide⟩
  have reached : Reachable [spec] p := .dispatch (.start fresh Sink.reliable_new rfl) _
  have rejected : p.answer (.loadState [0x62]) = some .deferredRejected := rfl
  have failed : p.answer (.drill 0x1f801000 1 3) = some .failed := rfl
  exact ⟨reached,
    ⟨rejected, congrArg Prod.fst ((answered_once reached _).2.2.2 _ rejected (.inr rfl)).2⟩,
    failed, congrArg Prod.fst ((answered_once reached _).2.2.2 _ failed (.inl rfl)).2⟩

end Plane

end ConsoleBus
