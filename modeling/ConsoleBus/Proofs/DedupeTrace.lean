import ConsoleBus.Proofs.HookSeparation
import ConsoleBus.Proofs.Strikes
import Mathlib.Data.List.Destutter

/-!
What a hook with dedupe reports. Such a hook, if it does not coalesce, sees its bytes after each store
that strikes it while it is not silenced (`Machine.sightings`), and its snapshot is what it saw last,
whatever happens to it in between: flushes, silences, and memory that is replaced behind its back. So
it reports the bytes that it saw, less those that were the same as the ones before
(`Machine.values_eq_destutter`).
-/

namespace ConsoleBus

/-- What can happen to a watched machine: a command, or its memory is replaced past the hooks, as by
the load of a saved state. -/
inductive Occurrence where
  | command (command : Command)
  | replaced (memory : Memory)

/-- Whether it has the hooks evaluated for a store that never happened. -/
def Occurrence.feigned : Occurrence → Bool
  | command c => c.feigned
  | replaced _ => false

namespace Hook

variable {h : Hook} {m : Memory} {now : ByteArray}

/-- The bytes in the snapshot. -/
def seen? (h : Hook) : Option Bytes := h.last.map fun bytes => bytes.data.toList

theorem seen?_eq_some_iff {bytes : ByteArray} :
    h.seen? = some bytes.data.toList ↔ h.last = some bytes := by
  unfold seen?
  cases h.last with
  | none => simp
  | some last =>
    simp only [Option.map_some, Option.some.injEq]
    exact ⟨fun same => ByteArray.ext (Array.toList_inj.1 same), fun same => by rw [same]⟩

/-- A store that strikes a hook with dedupe which does not coalesce: it is passed over if the hook is
silenced; else the hook has seen the bytes, and reports them if they are news. -/
theorem touch_of_dedupe (hv : h.value m = .ok now) (dedupe : h.dedupe = true)
    (immediate : h.coalesce = false) (idle : h.isPending = false) :
    (h.touch m).1.isPending = false ∧
      (h.state = .silenced → h.touch m = (h, none)) ∧
      (h.state ≠ .silenced → (h.touch m).1.last = some now ∧
        (h.touch m).2 = if h.last = some now then none else some (h.event now)) := by
  rcases touch_cases hv with ⟨touched, deaf⟩ | ⟨-, pushed⟩ | ⟨news, rest, moved⟩
  · rw [touched]
    refine ⟨idle, fun _ => rfl, fun awake => ?_⟩
    rcases deaf with silenced | waiting | ⟨-, same⟩
    · exact absurd silenced awake
    · simp [isPending, waiting] at idle
    · exact ⟨same, (if_pos same).symm⟩
  · simp [isPending, pushed] at idle
  · rcases moved with ⟨-, coalesce⟩ | ⟨touched, -⟩
    · rw [immediate] at coalesce
      cases coalesce
    · rw [touched]
      refine ⟨by rw [isPending_remember, idle], fun silenced => ?_, fun _ => ?_⟩
      · rw [rest] at silenced
        cases silenced
      · exact ⟨last_remember dedupe now, (if_neg fun same => news ⟨dedupe, same⟩).symm⟩

end Hook

/-- A value reported in front, where it is news, makes one step of removing repeated values. -/
theorem destutter_cons_of_news {b : Bytes} {values later : List Bytes}
    (rest : b :: values = (b :: later).destutter (· ≠ ·)) (seen : Option Bytes) :
    seen.toList ++ ((if seen = some b then [] else [b]) ++ values) =
      (seen.toList ++ b :: later).destutter (· ≠ ·) := by
  rw [List.destutter_cons'] at rest
  cases seen with
  | none => simpa [List.destutter_cons'] using rest
  | some a =>
    by_cases same : a = b
    · subst same
      simpa [List.destutter_cons_cons] using rest
    · simpa [List.destutter_cons_cons, same] using rest

namespace Machine

variable {m : Machine} {specs : List HookSpec} {k : UInt8} {h : Hook}

/-- The machine after an occurrence. -/
def undergo (m : Machine) : Occurrence → Machine
  | .command c => m.next c
  | .replaced memory => m.mapMemory fun _ => memory

/-- The events that an occurrence makes the hooks report. -/
def reports (m : Machine) : Occurrence → List HookEvent
  | .command c => m.events c
  | .replaced _ => []

def undergoAll (m : Machine) (run : List Occurrence) : Machine := run.foldl undergo m

/-- The events of a run, in their order. -/
def chronicle (m : Machine) : List Occurrence → List HookEvent
  | [] => []
  | o :: os => m.reports o ++ (m.undergo o).chronicle os

/-- What the hook with this key sees in an occurrence: its bytes after it, if that is a store that
strikes the hook while it is not silenced. -/
def sighting? (m : Machine) (k : UInt8) : Occurrence → Option Bytes
  | .command c =>
    (m.registry.get? k).bind fun h =>
      if h.state ≠ .silenced ∧ m.Strikes c k then
        (h.value (m.next c).bus.memory).toOption.map fun now => now.data.toList
      else none
  | .replaced _ => none

/-- What the hook with this key sees in a run. -/
def sightings (m : Machine) (k : UInt8) : List Occurrence → List Bytes
  | [] => []
  | o :: os => (m.sighting? k o).toList ++ (m.undergo o).sightings k os

theorem Serves.undergo (hm : m.Serves specs) (o : Occurrence) : (m.undergo o).Serves specs := by
  cases o with
  | command c => exact hm.next c
  | replaced memory => exact ⟨hm.isolation, hm.registry⟩

/-- What the channel is given are the events of the run. -/
theorem notifier_undergoAll (hm : m.Serves specs) (run : List Occurrence) :
    (m.undergoAll run).notifier = m.notifier.report (m.chronicle run) := by
  induction run generalizing m with
  | nil => rfl
  | cons o run ih =>
    have later : (m.undergoAll (o :: run)).notifier =
        (m.undergo o).notifier.report ((m.undergo o).chronicle run) := ih (hm.undergo o)
    have now : (m.undergo o).notifier = m.notifier.report (m.reports o) := by
      cases o with
      | command c => exact (next_spec hm c).2
      | replaced memory => rfl
    rw [later, now, chronicle]
    simp only [Notifier.report, List.foldl_append]

/-- An occurrence, to a hook with dedupe that does not coalesce: if the hook sees bytes they are in its
snapshot afterwards, and it reports them where they are news; else it keeps its snapshot and says
nothing. -/
theorem undergo_dedupe (hm : m.Serves specs) (found : m.registry.get? k = some h)
    (dedupe : h.dedupe = true) (immediate : h.coalesce = false) (idle : h.isPending = false)
    {o : Occurrence} (genuine : o.feigned = false) :
    ∃ h', (m.undergo o).registry.get? k = some h' ∧ h'.blank = h.blank ∧ h'.isPending = false ∧
      (m.sighting? k o = none ∧ h'.seen? = h.seen? ∧
          (m.reports o).filter (fun e => e.key = k) = [] ∨
        ∃ b, m.sighting? k o = some b ∧ h'.seen? = some b ∧
          ((m.reports o).filter fun e => e.key = k).map HookEvent.value =
            if h.seen? = some b then [] else [b]) := by
  cases o with
  | replaced memory => exact ⟨h, found, rfl, idle, .inl ⟨rfl, rfl, rfl⟩⟩
  | command c =>
    obtain ⟨now, hv⟩ := exists_value hm found (m.next c).bus.memory
    have emitted := filter_events_of_found hm found c
    refine ⟨_, get?_next_of_found hm found c, Hook.blank_respond _ _ _, ?_⟩
    simp only [reports, sighting?, found, Option.bind_some, emitted]
    by_cases strikes : m.Strikes c k
    · obtain ⟨rest, deaf, awake⟩ := Hook.touch_of_dedupe hv dedupe immediate idle
      rw [respond_of_strikes hm found strikes]
      refine ⟨rest, ?_⟩
      by_cases silenced : h.state = .silenced
      · rw [deaf silenced]
        simp [silenced]
      · obtain ⟨last, event⟩ := awake silenced
        refine .inr ⟨now.data.toList, ?_, Hook.seen?_eq_some_iff.2 last, ?_⟩
        · rw [if_pos ⟨silenced, strikes⟩, hv]
          rfl
        · rw [event]
          simp only [Hook.seen?_eq_some_iff]
          split <;> rfl
    · obtain ⟨silent, rest, kept⟩ :=
        quiet_of_misses hm found genuine idle strikes (m.next c).bus.memory
      have seen : (h.respond (m.stimulus c) (m.next c).bus.memory).1.seen? = h.seen? := by
        rw [Hook.seen?, Hook.seen?, kept]
      exact ⟨rest, .inl ⟨if_neg fun both => strikes both.2, seen, by rw [silent]; rfl⟩⟩

/-- What a hook with dedupe that does not coalesce had seen before a run, and what it reports in it,
are together what it had seen and sees, with repeated values removed. -/
theorem destutter_chronicle (hm : m.Serves specs) (found : m.registry.get? k = some h)
    (dedupe : h.dedupe = true) (immediate : h.coalesce = false) (idle : h.isPending = false)
    {run : List Occurrence} (genuine : ∀ o ∈ run, o.feigned = false) :
    h.seen?.toList ++ ((m.chronicle run).filter fun e => e.key = k).map HookEvent.value =
      (h.seen?.toList ++ m.sightings k run).destutter (· ≠ ·) := by
  induction run generalizing m h with
  | nil => cases h.seen? <;> simp [chronicle, sightings]
  | cons o run ih =>
    obtain ⟨first, others⟩ := List.forall_mem_cons.1 genuine
    obtain ⟨h', found', same, idle', sees⟩ := undergo_dedupe hm found dedupe immediate idle first
    obtain ⟨-, -, -, dedupe', coalesce'⟩ := Hook.blank_eq_iff.1 same
    have rest := ih (hm.undergo o) found' (dedupe'.trans dedupe) (coalesce'.trans immediate) idle'
      others
    rw [chronicle, sightings, List.filter_append, List.map_append]
    rcases sees with ⟨blind, seen, silent⟩ | ⟨b, sighted, seen, reported⟩
    · rw [blind, silent, ← seen]
      exact rest
    · rw [sighted, reported]
      rw [seen] at rest
      exact destutter_cons_of_news rest h.seen?

/-- What a hook with dedupe that does not coalesce reports in a run from power-on: its bytes after each
store that strikes it while it is not silenced, with every value removed that is the same as the one
before it. The channel gets just the events of the run. -/
theorem values_eq_destutter (fresh : m.Fresh specs) (sink : m.notifier.sink.Reliable)
    {spec : HookSpec} (listed : spec ∈ specs) (dedupe : spec.dedupe = true)
    (immediate : spec.coalesce = false) {run : List Occurrence}
    (genuine : ∀ o ∈ run, o.feigned = false) :
    (m.undergoAll run).notifier.sink.accepted = m.notifier.sink.accepted ++
        Notification.encodeAll ((m.chronicle run).map .hookFired) ∧
      ((m.chronicle run).filter fun e => e.key = spec.key).map HookEvent.value =
        (m.sightings spec.key run).destutter (· ≠ ·) := by
  refine ⟨?_, ?_⟩
  · rw [notifier_undergoAll fresh.serves]
    exact (Notifier.report_spec sink _).1
  · have found := Registry.get?_of_ofSpecs fresh.registry listed
    obtain ⟨-, idle⟩ := fresh.untouched found
    have trace := destutter_chronicle fresh.serves found dedupe immediate idle genuine
    have nothing : (Hook.ofSpec spec).seen? = none := rfl
    rw [nothing] at trace
    exact trace

/-- A hook of two bytes in RAM, of which a store hits one at a time; it sleeps for a while, and a saved
state is loaded meanwhile. -/
theorem partial_stores_deduped :
    let spec : HookSpec := { key := 1, start := 0x80000100, length := 2, dedupe := true }
    let m : Machine := { registry := Registry.empty.register spec }
    let run : List Occurrence :=
      [.command (.store .byte 0xa0600101 5), .command (.handleWrite 0x100 0), .command (.silence 1),
        .command (.store .word 0xfe 7), .replaced (.filled fun _ => 3), .command .flush,
        .command (.unsilence 1), .command (.store .byte 0x101 5)]
    m.Fresh [spec] ∧ m.notifier.sink.Reliable ∧ spec ∈ [spec] ∧ spec.dedupe = true ∧
      spec.coalesce = false ∧ (∀ o ∈ run, o.feigned = false) ∧
      ((m.chronicle run).filter fun e => e.key = 1).map HookEvent.value =
        (m.sightings 1 run).destutter (· ≠ ·) := by
  intro spec m run
  have fresh : m.Fresh [spec] :=
    fresh_register ⟨by decide, by decide, .ram, by decide, by decide, by decide⟩
  have listed : spec ∈ [spec] := List.mem_singleton.2 rfl
  have genuine : ∀ o ∈ run, o.feigned = false := by
    simp [run, Occurrence.feigned, Command.feigned]
  exact ⟨fresh, Sink.reliable_new, listed, rfl, rfl, genuine,
    (values_eq_destutter fresh Sink.reliable_new listed rfl rfl genuine).2⟩

end Machine

end ConsoleBus
