import ConsoleBus.Proofs.Delivery
import ConsoleBus.Proofs.Runs

/-!
Hooks do not influence each other. What a command does to the bus, and what it means to the hooks,
depends on the bus alone; and each hook responds by itself. So two machines that share a bus and the
hook of one key go on sharing them, whatever other hooks each of them has, and report the same
events of this key (`Machine.Alike.next`). One of the two may have no other hook at all
(`Machine.hook_as_if_alone`).
-/

namespace ConsoleBus

namespace Registry

/-- The events of a step come in the order of the hooks, at most one from each. -/
theorem keys_step {r : Registry} {f : Hook → Hook × Option HookEvent}
    (hf : ∀ h e, (f h).2 = some e → e.key = h.key) :
    List.Sublist ((r.step f).2.map HookEvent.key) (r.hooks.map Hook.key) := by
  simp only [step, List.filterMap_map]
  induction r.hooks with
  | nil => exact .slnil
  | cons h hooks ih =>
    cases emitted : (f h).2 with
    | none =>
      rw [List.filterMap_cons_none (by exact emitted)]
      exact ih.cons _
    | some e =>
      rw [List.filterMap_cons_some (by exact emitted), List.map_cons, List.map_cons,
        hf h e emitted]
      exact ih.cons_cons _

/-- The hook of a spec is found under the spec's key. -/
theorem get?_of_ofSpecs {specs : List HookSpec} {r : Registry} (made : ofSpecs specs = .ok r)
    {spec : HookSpec} (listed : spec ∈ specs) : r.get? spec.key = some (Hook.ofSpec spec) := by
  refine (get?_eq_some_iff (serves_of_ofSpecs made).nodup_keys).2 ⟨?_, rfl⟩
  obtain ⟨-, -, rfl⟩ := ofSpecs_eq_ok_iff.1 made
  rw [hooks_foldl_register]
  exact List.mem_append_right _ (List.mem_map_of_mem listed)

/-- No hook is lost. -/
theorem Serves.exists_hook {specs : List HookSpec} {r : Registry} (hr : r.Serves specs)
    {spec : HookSpec} (listed : spec ∈ specs) : ∃ h, r.get? spec.key = some h := by
  have kept : spec.key ∈ r.hooks.map Hook.key := hr.keys_eq ▸ List.mem_map_of_mem listed
  obtain ⟨h, member, key⟩ := List.mem_map.1 kept
  exact ⟨h, (get?_eq_some_iff hr.nodup_keys).2 ⟨member, key⟩⟩

end Registry

namespace Machine

variable {m m' : Machine} {specs specs' : List HookSpec} {k : UInt8}

/-- The events of a command carry different keys, in the order in which the hooks were registered. -/
theorem keys_events (hm : m.Serves specs) (c : Command) :
    List.Sublist ((m.events c).map HookEvent.key) (specs.map HookSpec.key) := by
  rw [← hm.registry.keys_eq]
  refine Registry.keys_step fun h e emitted => ?_
  obtain ⟨bytes, -, rfl⟩ := Hook.respond_event emitted
  rfl

/-- The machines share the bus and the hook of this key. -/
structure Alike (k : UInt8) (m m' : Machine) : Prop where
  bus : m'.bus = m.bus
  hook : m'.registry.get? k = m.registry.get? k

namespace Alike

theorem stimulus (alike : Alike k m m') (c : Command) : m'.stimulus c = m.stimulus c := by
  cases c with
  | store w addr value => simp only [Machine.stimulus, alike.bus]
  | handleWrite addr value => simp only [Machine.stimulus, alike.bus]
  | _ => rfl

/-- What a command does to the bus depends on the bus alone. -/
theorem bus_next (alike : Alike k m m') (c : Command) : (m'.next c).bus = (m.next c).bus := by
  by_cases indirect : c.direct = false
  · rw [m'.bus_next indirect, m.bus_next indirect, alike.bus]
  · obtain ⟨bus, registry, notifier⟩ := m
    obtain ⟨bus', registry', notifier'⟩ := m'
    obtain rfl : bus' = bus := alike.bus
    cases c with
    | loadBios image =>
      simp only [Machine.next, perform]
      cases bus'.memory.loadBios image <;> rfl
    | poke region offset bytes =>
      simp only [Machine.next, perform]
      split <;> rfl
    | reset => rfl
    | fill region value => rfl
    | _ => exact absurd rfl indirect

/-- Machines that share a bus and a hook share them after any command, and report the same of this
hook. -/
theorem next (alike : Alike k m m') (hm : m.Serves specs) (hm' : m'.Serves specs') (c : Command) :
    Alike k (m.next c) (m'.next c) ∧
      (m'.events c).filter (fun e => e.key = k) = (m.events c).filter fun e => e.key = k := by
  refine ⟨⟨alike.bus_next c, ?_⟩, ?_⟩
  · rw [get?_next hm' c k, get?_next hm c k, alike.hook, alike.stimulus c, alike.bus_next c]
  · rw [filter_events hm' c k, filter_events hm c k, alike.hook, alike.stimulus c,
      alike.bus_next c]

/-- So they do over any run. -/
theorem after (alike : Alike k m m') (hm : m.Serves specs) (hm' : m'.Serves specs')
    (run : List Command) :
    Alike k (m.after run) (m'.after run) ∧
      (m'.log run).filter (fun e => e.key = k) = (m.log run).filter fun e => e.key = k := by
  induction run generalizing m m' with
  | nil => exact ⟨alike, rfl⟩
  | cons c run ih =>
    obtain ⟨shared, now⟩ := alike.next hm hm' c
    obtain ⟨shared, later⟩ := ih shared (hm.next c) (hm'.next c)
    exact ⟨shared, by simp only [log, List.filter_append, now, later]⟩

end Alike

/-- All events come from the hooks of the list. -/
theorem key_of_mem_log (hm : m.Serves specs) {run : List Command} {e : HookEvent}
    (reported : e ∈ m.log run) : e.key ∈ specs.map HookSpec.key := by
  induction run generalizing m with
  | nil => cases reported
  | cons c run ih =>
    rcases List.mem_append.1 reported with now | later
    · exact (keys_events hm c).subset (List.mem_map_of_mem now)
    · exact ih (hm.next c) later

/-- Hooks do not influence each other. Take any accepted hook list and any of its specs: a machine
with that one hook and no other goes through any run with the hook in the same states, and reports
just what the first machine reports under the hook's key. On either machine what was reported is what
the channel got. And what a single command makes the hooks report comes in the order in which they
were registered, at most once from each. -/
theorem hook_as_if_alone (fresh : m.Fresh specs) (sink : m.notifier.sink.Reliable) {spec : HookSpec}
    (listed : spec ∈ specs) :
    ∃ r, Registry.ofSpecs [spec] = .ok r ∧
      let alone : Machine := { m with registry := r }
      ∀ run : List Command,
        (∃ h, (m.after run).registry.get? spec.key = some h ∧
          (alone.after run).registry.get? spec.key = some h) ∧
        (m.log run).filter (fun e => e.key = spec.key) = alone.log run ∧
        (m.after run).notifier.sink.accepted = m.notifier.sink.accepted ++
          Notification.encodeAll ((m.log run).map .hookFired) ∧
        (alone.after run).notifier.sink.accepted = m.notifier.sink.accepted ++
          Notification.encodeAll ((alone.log run).map .hookFired) ∧
        ∀ c, (((m.after run).events c).map HookEvent.key).Nodup ∧
          List.Sublist (((m.after run).events c).map HookEvent.key) (specs.map HookSpec.key) := by
  have hm := fresh.serves
  have made : Registry.ofSpecs [spec] = .ok (Registry.empty.register spec) :=
    Registry.ofSpecs_eq_ok_iff.2
      ⟨fun s hs => List.mem_singleton.1 hs ▸ hm.registry.admissible spec listed, by simp, rfl⟩
  refine ⟨_, made, ?_⟩
  intro alone run
  have single : alone.Fresh [spec] := ⟨fresh.isolation, made⟩
  have found := Registry.get?_of_ofSpecs fresh.registry listed
  have alike : Alike spec.key m alone :=
    ⟨rfl, (Registry.get?_of_ofSpecs made (List.mem_singleton.2 rfl)).trans found.symm⟩
  obtain ⟨shared, same⟩ := alike.after hm single.serves run
  refine ⟨?_, ?_, ?_, ?_, ?_⟩
  · -- the states
    obtain ⟨h, now⟩ := (hm.after run).registry.exists_hook listed
    exact ⟨h, now, shared.hook.trans now⟩
  · -- the reports
    rw [← same, List.filter_eq_self]
    intro e reported
    simpa using key_of_mem_log single.serves reported
  · -- the channels
    rw [notifier_after hm]
    exact (Notifier.report_spec sink _).1
  · rw [notifier_after single.serves]
    exact (Notifier.report_spec sink _).1
  · -- the reports on one command
    intro c
    have order := keys_events (hm.after run) c
    exact ⟨order.nodup hm.registry.nodup, order⟩

/-- Two hooks on the same word, one of them coalescing, and a hook far away from both: the far one
reports as it would by itself. -/
theorem far_hook_as_if_alone :
    let near : HookSpec := { key := 1, start := 0x100, length := 4, coalesce := true }
    let twin : HookSpec := { key := 2, start := 0x102, length := 2 }
    let far : HookSpec := { key := 3, start := 0x80001000, length := 1 }
    let m : Machine := { registry := ((Registry.empty.register near).register twin).register far }
    let alone : Machine := { registry := Registry.empty.register far }
    let run : List Command :=
      [.store .word 0x100 7, .handleWrite 0x1000 9, .silence 1, .store .byte 0xa0001000 8, .flush]
    m.Fresh [near, twin, far] ∧ m.notifier.sink.Reliable ∧ far ∈ [near, twin, far] ∧
      (m.log run).filter (fun e => e.key = 3) = alone.log run := by
  intro near twin far m alone run
  have fresh : m.Fresh [near, twin, far] := by
    refine ⟨rfl, Registry.ofSpecs_eq_ok_iff.2 ⟨fun s hs => ?_, by decide, rfl⟩⟩
    simp only [List.mem_cons, List.not_mem_nil, or_false] at hs
    rcases hs with rfl | rfl | rfl
    all_goals exact ⟨by decide, by decide, .ram, by decide, by decide, by decide⟩
  have listed : far ∈ [near, twin, far] := by simp
  obtain ⟨r, made, same⟩ := hook_as_if_alone fresh Sink.reliable_new listed
  obtain rfl : Registry.empty.register far = r :=
    (Registry.ofSpecs_eq_ok_iff.1 made).2.2.symm
  exact ⟨fresh, Sink.reliable_new, listed, (same run).2.1⟩

end Machine

end ConsoleBus
