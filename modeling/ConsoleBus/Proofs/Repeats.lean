import ConsoleBus.Proofs.HookSeparation
import ConsoleBus.Proofs.Strikes
import Mathlib.Data.List.Chain

/-!
When a hook with dedupe repeats itself (`Machine.Repeats`). What it reports at once is news: it
compares its bytes with its snapshot, and that is what it reported last
(`Machine.snapshot_reported_or_forgotten`). But a flush reports whatever waits without comparing it
with anything, and of a coalescing hook the bytes may have changed and changed back by then. This is
the only way (`Machine.repeats_only_restored`).
-/

namespace ConsoleBus

namespace Hook

variable {h : Hook} {s : Stimulus} {m : Memory} {now : ByteArray}

/-- What a report leaves behind, and the two ways to it: a flush of a change that waits, and a store
that strikes a hook which does not coalesce and brings news. -/
theorem respond_emits {e : HookEvent} (hv : h.value m = .ok now)
    (emitted : (h.respond s m).2 = some e) :
    e = h.event now ∧ (h.respond s m).1.isPending = false ∧
      (h.dedupe = true → (h.respond s m).1.last = some now) ∧
      (s = .flushed ∧ h.isPending = true ∨
        h.isPending = false ∧ h.coalesce = false ∧ ¬ (h.dedupe = true ∧ h.last = some now)) := by
  cases s with
  | quiet => cases emitted
  | silenced key => cases emitted
  | unsilenced key => cases emitted
  | flushed =>
    by_cases pending : h.isPending = true
    · have flushed : h.respond .flushed m = _ := flush_of_pending pending hv
      rw [flushed] at emitted ⊢
      refine ⟨(Option.some.inj emitted).symm, isPending_remember _ now, fun dedupe => ?_,
        .inl ⟨rfl, pending⟩⟩
      exact last_remember (h := { h with state := .noChanges }) dedupe now
    · have silent : h.respond .flushed m = _ := flush_of_idle (Bool.eq_false_iff.2 pending)
      rw [silent] at emitted
      cases emitted
  | stored addr width =>
    simp only [respond, onStore] at emitted ⊢
    split at emitted
    · next touches =>
      rw [if_pos touches]
      rcases touch_cases hv with ⟨touched, -⟩ | ⟨touched, -⟩ | ⟨news, idle, ⟨touched, -⟩ |
        ⟨touched, immediate⟩⟩
      · rw [touched] at emitted
        cases emitted
      · rw [touched] at emitted
        cases emitted
      · rw [touched] at emitted
        cases emitted
      · have rest : h.isPending = false := by simp [isPending, idle]
        rw [touched] at emitted ⊢
        exact ⟨(Option.some.inj emitted).symm, by rw [isPending_remember, rest],
          fun dedupe => last_remember dedupe now, .inr ⟨rest, immediate, news⟩⟩
    · cases emitted

theorem event_inj {bytes : ByteArray} : h.event now = h.event bytes ↔ now = bytes :=
  ⟨fun same => ByteArray.ext (Array.toList_inj.1 (congrArg HookEvent.value same)),
    fun same => by rw [same]⟩

/-- A store that strikes a hook at rest leaves it there with its snapshot, or it has left other
bytes. -/
theorem touch_of_rest {bytes : ByteArray} (hv : h.value m = .ok now) (dedupe : h.dedupe = true)
    (idle : h.isPending = false) (seen : h.last = some bytes) :
    (h.touch m).1.isPending = false ∧ (h.touch m).1.last = some bytes ∨ now ≠ bytes := by
  rcases touch_cases hv with ⟨touched, -⟩ | ⟨-, pushed⟩ | ⟨news, -⟩
  · rw [touched]
    exact .inl ⟨idle, seen⟩
  · simp [isPending, pushed] at idle
  · refine .inr ?_
    rintro rfl
    exact news ⟨dedupe, seen⟩

end Hook

/-- One more value is no repetition if it is not the last one again. -/
theorem isChain_ne_concat {values : List Bytes} {b : Bytes} :
    (values ++ [b]).IsChain (· ≠ ·) ↔
      values.IsChain (· ≠ ·) ∧ ¬ values.getLast? = some b := by
  rw [List.isChain_append]
  cases values.getLast? <;> simp

namespace Machine

variable {m : Machine} {specs : List HookSpec} {run : List Command} {c : Command} {k : UInt8}
  {h : Hook}

/-- The values reported under a key in a run. -/
def values (m : Machine) (k : UInt8) (run : List Command) : List Bytes :=
  ((m.log run).filter fun e => e.key = k).map HookEvent.value

theorem getLast?_values (m : Machine) (k : UInt8) (run : List Command) :
    (m.values k run).getLast? = (lastEvent? k (m.log run)).map HookEvent.value := by
  rw [values, List.getLast?_map]
  rfl

/-- The value that was reported last tells the event. -/
theorem getLast?_values_eq_iff (key : h.key = k) (run : List Command) (bytes : ByteArray) :
    (m.values k run).getLast? = some bytes.data.toList ↔
      lastEvent? k (m.log run) = some (h.event bytes) := by
  rw [getLast?_values]
  constructor
  · intro same
    obtain ⟨e, last, value⟩ := Option.map_eq_some_iff.1 same
    have member := List.mem_of_getLast? last
    have key' : e.key = k := by simpa using (List.mem_filter.1 member).2
    rw [last, Hook.event, key, ← key', ← value]
  · intro last
    rw [last]
    rfl

/-- One more command adds what the hook emits on it. -/
theorem values_concat (hm : m.Serves specs) (run : List Command) (c : Command)
    (found : (m.after run).registry.get? k = some h) :
    m.values k (run ++ [c]) = m.values k run ++
      (h.respond ((m.after run).stimulus c) ((m.after run).next c).bus.memory).2.toList.map
        HookEvent.value := by
  have emitted := filter_events_of_found (hm.after run) found c
  simp only [values, log_append, log, List.append_nil, List.filter_append, List.map_append, emitted]

/-- On this command, after this run, the value that was reported last under this key is reported
again. -/
def Repeats (m : Machine) (run : List Command) (c : Command) (k : UInt8) : Prop :=
  ∃ value, (m.values k run).getLast? = some value ∧
    m.values k (run ++ [c]) = m.values k run ++ [value]

/-- No two values in a row are equal as long as no command repeats one. -/
theorem isChain_values_concat (hm : m.Serves specs) (run : List Command) (c : Command)
    (found : (m.after run).registry.get? k = some h) :
    (m.values k (run ++ [c])).IsChain (· ≠ ·) ↔
      (m.values k run).IsChain (· ≠ ·) ∧ ¬ m.Repeats run c k := by
  rw [Repeats, values_concat hm run c found]
  cases (h.respond ((m.after run).stimulus c) ((m.after run).next c).bus.memory).2 with
  | none => simp
  | some e =>
    have added : (some e).toList.map HookEvent.value = [e.value] := rfl
    rw [added, isChain_ne_concat]
    refine and_congr_right fun _ => not_congr ⟨fun last => ⟨_, last, rfl⟩, ?_⟩
    rintro ⟨value, last, same⟩
    cases List.append_cancel_left same
    exact last

/-- The values of a run show every repetition. -/
theorem isChain_values_iff (hm : m.Serves specs) (run : List Command)
    (found : (m.after run).registry.get? k = some h) :
    (m.values k run).IsChain (· ≠ ·) ↔
      ∀ before c since, run = before ++ c :: since → ¬ m.Repeats before c k := by
  induction run using List.reverseRecOn generalizing h with
  | nil => simp [values, log]
  | append_singleton run c ih =>
    obtain ⟨h₀, before, rfl⟩ := exists_before hm found
    rw [isChain_values_concat hm run c before, ih before]
    constructor
    · rintro ⟨earlier, last⟩ part d since split
      rcases List.eq_nil_or_concat' since with rfl | ⟨since, d', rfl⟩
      · obtain ⟨rfl, same⟩ := List.append_inj' split rfl
        cases same
        exact last
      · rw [← List.cons_append, ← List.append_assoc] at split
        obtain ⟨rfl, -⟩ := List.append_inj' split rfl
        exact earlier part d since rfl
    · intro all
      exact ⟨fun part d since split => all part d (since ++ [c]) (by simp [split]), all run c [] rfl⟩

/-! ### Bytes that come back -/

/-- Since the hook with this key reported last, a store has struck it that left other bytes than
these. -/
def Strays (m : Machine) (run : List Command) (k : UInt8) (bytes : ByteArray) : Prop :=
  ∃ before c since h other, run = before ++ c :: since ∧ (m.after before).Strikes c k ∧
    (m.after before).registry.get? k = some h ∧
    h.value ((m.after before).next c).bus.memory = .ok other ∧ other ≠ bytes ∧
    ((m.after before).log (c :: since)).filter (fun e => e.key = k) = []

/-- As long as nothing is reported, such a store is not forgotten. -/
theorem Strays.concat {bytes : ByteArray} (strays : m.Strays run k bytes)
    (silent : ((m.after run).events c).filter (fun e => e.key = k) = []) :
    m.Strays (run ++ [c]) k bytes := by
  obtain ⟨before, d, since, h, other, rfl, strikes, found, hv, differ, quiet⟩ := strays
  refine ⟨before, d, since ++ [c], h, other, by simp, strikes, found, hv, differ, ?_⟩
  rw [← List.cons_append, log_append, List.filter_append, quiet, ← after_append]
  simpa [log] using silent

/-- A hook with dedupe, after it has reported bytes: it is at rest with these bytes in its snapshot, or
a store has left others. -/
theorem rests_or_strays (fresh : m.Fresh specs) (run : List Command)
    (genuine : ∀ c ∈ run, c.feigned = false) (found : (m.after run).registry.get? k = some h)
    (dedupe : h.dedupe = true) {bytes : ByteArray}
    (last : lastEvent? k (m.log run) = some (h.event bytes)) :
    h.isPending = false ∧ h.last = some bytes ∨ m.Strays run k bytes := by
  induction run using List.reverseRecOn generalizing h with
  | nil => cases last
  | append_singleton run c ih =>
    obtain ⟨h₀, before, rfl⟩ := exists_before fresh.serves found
    have hm := fresh.serves.after run
    obtain ⟨now, hv⟩ := exists_value hm before ((m.after run).next c).bus.memory
    have dedupe₀ := (Hook.dedupe_respond h₀ _ _).symm.trans dedupe
    have emitted := filter_events_of_found hm before c
    rw [lastEvent?_concat fresh.serves run c before,
      Hook.event_of_blank (Hook.blank_respond h₀ _ _)] at last
    cases reported : (h₀.respond ((m.after run).stimulus c) ((m.after run).next c).bus.memory).2 with
    | some e =>
      obtain ⟨rfl, rest, seen, -⟩ := Hook.respond_emits hv reported
      rw [reported, Option.some_or, Option.some.injEq, Hook.event_inj] at last
      exact .inl ⟨rest, last ▸ seen dedupe₀⟩
    | none =>
      rw [reported, Option.none_or] at last
      rw [reported] at emitted
      rcases ih (fun d hd => genuine d (by simp [hd])) before dedupe₀ last with ⟨idle, seen⟩ | strays
      · by_cases strikes : (m.after run).Strikes c k
        · rw [respond_of_strikes hm before strikes]
          refine (Hook.touch_of_rest hv dedupe₀ idle seen).imp_right fun differ => ?_
          refine ⟨run, c, [], h₀, now, rfl, strikes, before, hv, differ, ?_⟩
          simpa [log] using emitted
        · obtain ⟨-, rest, kept⟩ := quiet_of_misses hm before (genuine c (by simp)) idle strikes
            ((m.after run).next c).bus.memory
          exact .inl ⟨rest, kept.trans seen⟩
      · exact .inr (strays.concat emitted)

/-- A hook with dedupe repeats itself only at a flush, where it coalesces and a store has left other
bytes in it since it reported. -/
theorem Repeats.restored (fresh : m.Fresh specs) (genuine : ∀ d ∈ run, d.feigned = false)
    (found : (m.after run).registry.get? k = some h) (dedupe : h.dedupe = true)
    (repeats : m.Repeats run c k) :
    c = .flush ∧ h.coalesce = true ∧
      ∃ bytes, (m.values k run).getLast? = some bytes.data.toList ∧ m.Strays run k bytes := by
  have hm := fresh.serves.after run
  have key := ((Registry.get?_eq_some_iff hm.registry.nodup_keys).1 found).2
  obtain ⟨now, hv⟩ := exists_value hm found ((m.after run).next c).bus.memory
  obtain ⟨value, last, added⟩ := repeats
  rw [values_concat fresh.serves run c found] at added
  have reported := List.append_cancel_left added
  cases emitted : (h.respond ((m.after run).stimulus c) ((m.after run).next c).bus.memory).2 with
  | none =>
    rw [emitted] at reported
    cases reported
  | some e =>
    obtain ⟨rfl, -, -, way⟩ := Hook.respond_emits hv emitted
    rw [emitted] at reported
    cases reported
    have event := (getLast?_values_eq_iff key run now).1 last
    rcases way with ⟨flushed, pending⟩ | ⟨idle, immediate, news⟩
    · -- by a flush: a hook at rest would have nothing to report
      refine ⟨stimulus_eq_flushed flushed, (sound_after fresh run found pending).1, now, last, ?_⟩
      refine (rests_or_strays fresh run genuine found dedupe event).resolve_left ?_
      rintro ⟨idle, -⟩
      rw [pending] at idle
      cases idle
    · -- at once: the snapshot holds what was reported last, so this is no news
      rcases snapshot_reported_or_forgotten fresh run found dedupe idle with seen | ⟨coalesce, -⟩
      · rw [event] at seen
        obtain ⟨bytes, seen, same⟩ := Option.map_eq_some_iff.1 seen
        exact absurd ⟨dedupe, Hook.event_inj.1 same ▸ seen⟩ news
      · rw [immediate] at coalesce
        cases coalesce

/-- The hook of a spec, wherever a run has brought it. -/
theorem exists_after (fresh : m.Fresh specs) {spec : HookSpec} (listed : spec ∈ specs)
    (run : List Command) : ∃ h, (m.after run).registry.get? spec.key = some h ∧
      h.blank = (Hook.ofSpec spec).blank := by
  induction run using List.reverseRecOn with
  | nil => exact ⟨_, Registry.get?_of_ofSpecs fresh.registry listed, rfl⟩
  | append_singleton run c ih =>
    obtain ⟨h, found, same⟩ := ih
    exact ⟨_, get?_concat fresh.serves run c found, (Hook.blank_respond h _ _).trans same⟩

/-! ### One watched byte -/

/-- Where a run has brought the hook with this key, which has one byte in memory, and what the hook has
reported. -/
structure At (m : Machine) (k : UInt8) (run : List Command) (h : Hook) (b : UInt8)
    (values : List Bytes) : Prop where
  found : (m.after run).registry.get? k = some h
  value : h.value (m.after run).bus.memory = .ok ⟨#[b]⟩
  values_eq : m.values k run = values

namespace At

variable {b : UInt8} {values : List Bytes} {h' : Hook} {e : Option HookEvent}

/-- The response of a hook and its byte in memory say where it is then. -/
theorem of_respond (hm : m.Serves specs) (found : (m.after run).registry.get? k = some h)
    (reported : m.values k run = values)
    (value : h.value ((m.after run).next c).bus.memory = .ok ⟨#[b]⟩)
    (moved : h.respond ((m.after run).stimulus c) ((m.after run).next c).bus.memory = (h', e)) :
    m.At k (run ++ [c]) h' b (values ++ e.toList.map HookEvent.value) := by
  have same := Hook.blank_respond h ((m.after run).stimulus c) ((m.after run).next c).bus.memory
  rw [moved] at same
  refine ⟨?_, ?_, ?_⟩
  · rw [get?_concat hm run c found, moved]
  · rw [after_concat, Hook.value_of_blank same, value]
  · rw [values_concat hm run c found, moved, reported]

/-- A byte that a store puts where the hook looks. -/
theorem of_store (hm : m.Serves specs) (found : (m.after run).registry.get? k = some h)
    (reported : m.values k run = values) {offset : Nat} (sited : h.Sited ⟨.ram, offset, 1⟩)
    {addr : Address} (hp : c.place? = some (addr, [b])) (hc : classify addr ≠ .hardwareRegister)
    (lands : (m.after run).bus.Lands addr 1 ⟨.ram, offset, 1⟩)
    (moved : ∀ memory, h.value memory = .ok ⟨#[b]⟩ → h.touch memory = (h', e)) :
    m.At k (run ++ [c]) h' b (values ++ e.toList.map HookEvent.value) := by
  have value : h.value ((m.after run).next c).bus.memory = .ok ⟨#[b]⟩ :=
    sited.value_eq_ok_iff.2 (read?_of_place (hm.after run) hp hc lands)
  have strikes : (m.after run).Strikes c k :=
    ⟨_, hp, h, found, ⟨.ram, offset⟩, ⟨_, lands, rfl, Nat.le_refl _, Nat.lt_succ_self _⟩,
      ⟨_, sited.resolved, rfl, Nat.le_refl _, Nat.lt_succ_self _⟩⟩
  refine of_respond hm found reported value ?_
  rw [respond_of_strikes (hm.after run) found strikes, moved _ value]

/-- A change that waits is flushed. -/
theorem flush (place : m.At k run h b values) (hm : m.Serves specs) (pending : h.isPending = true) :
    m.At k (run ++ [.flush]) ({ h with state := .noChanges }.remember ⟨#[b]⟩) b
      (values ++ [[b]]) :=
  of_respond (c := .flush) hm place.found place.values_eq place.value
    (Hook.flush_of_pending pending place.value)

end At

/-- A hook with dedupe that coalesces, on one byte of RAM. -/
def byteSpec : HookSpec :=
  { key := 1, start := 0x100, length := 1, dedupe := true, coalesce := true }

/-- A machine with just this hook. -/
def byteMachine : Machine := { registry := Registry.empty.register byteSpec }

/-- This hook in a state, with a byte in its snapshot. -/
def byteHook (state : HookState) (last : UInt8) : Hook :=
  { Hook.ofSpec byteSpec with state := state, last := some ⟨#[last]⟩ }

theorem fresh_byteMachine : byteMachine.Fresh [byteSpec] :=
  fresh_register ⟨by decide, by decide, .ram, by decide, by decide, by decide⟩

theorem sited_byteSpec : (Hook.ofSpec byteSpec).Sited ⟨.ram, 0x100, 1⟩ := by
  refine ⟨?_, by decide, by decide, by decide, by decide⟩
  exact PageTable.resolveRange_eq_ok_iff.2 ⟨PageTable.locate_powerOnRead_iff.2
    ⟨by decide, 0, by decide, by decide⟩, by decide, rfl⟩

/-- A byte is stored while isolation is off. -/
theorem At.byte_stored (run : List Command)
    (found : (byteMachine.after run).registry.get? 1 = some h)
    (same : h.blank = (Hook.ofSpec byteSpec).blank) {values : List Bytes}
    (reported : byteMachine.values 1 run = values)
    (opened : (byteMachine.after run).bus.isolation.active = false) {b : UInt8}
    (hp : c.place? = some (0x100, [b])) {state : HookState}
    (moved : ∀ memory, h.value memory = .ok ⟨#[b]⟩ →
      h.touch memory = (byteHook state b, none)) :
    byteMachine.At 1 (run ++ [c]) (byteHook state b) b values := by
  have lands : (byteMachine.after run).bus.Lands 0x100 1 ⟨.ram, 0x100, 1⟩ :=
    ⟨by decide, fun isolated => by rw [opened] at isolated; cases isolated.1⟩
  have stored := of_store fresh_byteMachine.serves found reported (sited_byteSpec.of_blank same) hp
    (by decide) lands moved
  rwa [Option.toList_none, List.map_nil, List.append_nil] at stored

/-- A byte is reported, overwritten by another, and stored again. -/
theorem byte_restored :
    byteMachine.At 1 [.store .byte 0x100 5, .flush, .store .byte 0x100 6, .store .byte 0x100 5]
      (byteHook .unpushedChanges 5) 5 [[5]] := by
  have stored : byteMachine.At 1 [.store .byte 0x100 5] (byteHook .pushedChanges 5) 5 [] :=
    At.byte_stored [] (h := Hook.ofSpec byteSpec) (by decide) rfl rfl rfl rfl
      fun memory value => by rw [Hook.touch, value]; rfl
  have reported : byteMachine.At 1 [.store .byte 0x100 5, .flush] (byteHook .noChanges 5) 5 [[5]] :=
    stored.flush fresh_byteMachine.serves rfl
  have overwritten : byteMachine.At 1 [.store .byte 0x100 5, .flush, .store .byte 0x100 6]
      (byteHook .pushedChanges 6) 6 [[5]] :=
    At.byte_stored [.store .byte 0x100 5, .flush] reported.found rfl
      reported.values_eq (by decide) rfl fun memory value => by rw [Hook.touch, value]; rfl
  exact At.byte_stored [.store .byte 0x100 5, .flush, .store .byte 0x100 6]
    overwritten.found rfl overwritten.values_eq (by decide) rfl
    fun memory value => by rw [Hook.touch, value]; rfl

/-! ### Repeated values -/

/-- When a hook with dedupe repeats itself, in a run from power-on. Two values in a row are equal just
where a command repeats one. A hook that does not coalesce never repeats a value; one that coalesces
does so only at a flush, and only if a store has left other bytes in it since it reported, so that the
value was gone in between. The channel gets just the events of the run. -/
theorem repeats_only_restored (fresh : m.Fresh specs) (sink : m.notifier.sink.Reliable)
    {spec : HookSpec} (listed : spec ∈ specs) (dedupe : spec.dedupe = true) (run : List Command)
    (genuine : ∀ c ∈ run, c.feigned = false) :
    (m.after run).notifier.sink.accepted = m.notifier.sink.accepted ++
        Notification.encodeAll ((m.log run).map .hookFired) ∧
      ((m.values spec.key run).IsChain (· ≠ ·) ↔
        ∀ before c since, run = before ++ c :: since → ¬ m.Repeats before c spec.key) ∧
      (spec.coalesce = false → (m.values spec.key run).IsChain (· ≠ ·)) ∧
      ∀ before c since, run = before ++ c :: since → m.Repeats before c spec.key →
        c = .flush ∧ spec.coalesce = true ∧
          ∃ bytes, (m.values spec.key before).getLast? = some bytes.data.toList ∧
            m.Strays before spec.key bytes := by
  have restored : ∀ before c since, run = before ++ c :: since → m.Repeats before c spec.key →
      c = .flush ∧ spec.coalesce = true ∧
        ∃ bytes, (m.values spec.key before).getLast? = some bytes.data.toList ∧
          m.Strays before spec.key bytes := by
    intro before c since split repeats
    obtain ⟨h, found, same⟩ := exists_after fresh listed before
    obtain ⟨-, -, -, dedupe', coalesce'⟩ := Hook.blank_eq_iff.1 same
    obtain ⟨flush, coalesce, strays⟩ := repeats.restored fresh
      (fun d hd => genuine d (by simp [split, hd])) found (dedupe'.trans dedupe)
    exact ⟨flush, coalesce'.symm.trans coalesce, strays⟩
  obtain ⟨h, found, -⟩ := exists_after fresh listed run
  have shown := isChain_values_iff fresh.serves run found
  refine ⟨?_, shown, ?_, restored⟩
  · -- the channel
    rw [notifier_after fresh.serves]
    exact (Notifier.report_spec sink _).1
  · -- a hook that does not coalesce
    intro immediate
    rw [shown]
    intro before c since split repeats
    obtain ⟨-, coalesce, -⟩ := restored before c since split repeats
    rw [immediate] at coalesce
    cases coalesce

/-- A flush repeats the byte that was reported last, where another byte stood in between. -/
theorem restored_byte_strayed :
    let before : List Command :=
      [.store .byte 0x100 5, .flush, .store .byte 0x100 6, .store .byte 0x100 5]
    byteMachine.Fresh [byteSpec] ∧ byteMachine.notifier.sink.Reliable ∧ byteSpec ∈ [byteSpec] ∧
      byteSpec.dedupe = true ∧ (∀ c ∈ before ++ [.flush], c.feigned = false) ∧
      byteMachine.Repeats before .flush 1 ∧
      ∃ bytes, (byteMachine.values 1 before).getLast? = some bytes.data.toList ∧
        byteMachine.Strays before 1 bytes := by
  intro before
  have listed : byteSpec ∈ [byteSpec] := List.mem_singleton.2 rfl
  have genuine : ∀ c ∈ before ++ [.flush], c.feigned = false := by simp [before, Command.feigned]
  have flushed := byte_restored.flush fresh_byteMachine.serves rfl
  have repeats : byteMachine.Repeats before .flush 1 := by
    refine ⟨[5], ?_, ?_⟩
    · rw [byte_restored.values_eq]
      rfl
    · rw [flushed.values_eq, byte_restored.values_eq]
  obtain ⟨-, -, -, restored⟩ := repeats_only_restored fresh_byteMachine Sink.reliable_new listed rfl
    (before ++ [.flush]) genuine
  obtain ⟨-, -, strayed⟩ := restored before .flush [] rfl repeats
  exact ⟨fresh_byteMachine, Sink.reliable_new, listed, rfl, genuine, repeats, strayed⟩

/-- A hook with dedupe that coalesces reports a byte twice in a row, where the byte was overwritten and
stored again between two flushes. -/
theorem returning_byte_repeated :
    let run : List Command :=
      [.store .byte 0x100 5, .flush, .store .byte 0x100 6, .store .byte 0x100 5, .flush]
    byteMachine.Fresh [byteSpec] ∧ byteMachine.notifier.sink.Reliable ∧ byteSpec ∈ [byteSpec] ∧
      byteSpec.dedupe = true ∧ (∀ c ∈ run, c.feigned = false) ∧
      byteMachine.values 1 run = [[5], [5]] ∧ ¬ (byteMachine.values 1 run).IsChain (· ≠ ·) := by
  intro run
  have twice : byteMachine.values 1 run = [[5], [5]] :=
    (byte_restored.flush fresh_byteMachine.serves rfl).values_eq
  refine ⟨fresh_byteMachine, Sink.reliable_new, List.mem_singleton.2 rfl, rfl,
    by simp [run, Command.feigned], twice, ?_⟩
  rw [twice]
  simp

end Machine

end ConsoleBus
