import ConsoleBus.Proofs.HookSeparation
import ConsoleBus.Proofs.Strikes

/-!
Silence. A silenced hook stays silenced and says nothing, whatever happens, until it is unsilenced
(`Machine.log_of_silenced`); and a hook on which nothing waits says nothing until a store strikes it
(`Machine.log_of_unstruck`). Unsilencing leaves nothing waiting, so what waited before a silence is
never heard of again (`Machine.silence_absolute`).
-/

namespace ConsoleBus

namespace Hook

variable {h : Hook} {s : Stimulus}

/-- Only unsilencing gets anything out of a silenced hook, or brings it back. -/
theorem respond_of_silenced (silenced : h.state = .silenced) (other : s ≠ .unsilenced h.key)
    (m : Memory) : (h.respond s m).2 = none ∧ (h.respond s m).1.state = .silenced := by
  cases s with
  | quiet => exact ⟨rfl, silenced⟩
  | stored addr width =>
    simp only [respond, onStore]
    split
    · rw [touch, if_pos (.inl silenced)]
      exact ⟨rfl, silenced⟩
    · exact ⟨rfl, silenced⟩
  | flushed =>
    have idle : h.isPending = false := by simp [isPending, silenced]
    have kept : h.respond .flushed m = (h, none) := flush_of_idle idle
    rw [kept]
    exact ⟨rfl, silenced⟩
  | silenced key =>
    refine ⟨rfl, ?_⟩
    simp only [respond, setIf]
    split
    · rfl
    · exact silenced
  | unsilenced key =>
    refine ⟨rfl, ?_⟩
    simp only [respond, setIf]
    split
    · next same =>
      rw [same] at other
      exact absurd rfl other
    · exact silenced

end Hook

namespace Machine

variable {m : Machine} {specs : List HookSpec} {k : UInt8} {h : Hook}

/-- The events of a run that carry a key, told step by step. -/
theorem filter_log_cons (hm : m.Serves specs) (found : m.registry.get? k = some h) (c : Command)
    (run : List Command) :
    (m.log (c :: run)).filter (fun e => e.key = k) =
      (h.respond (m.stimulus c) (m.next c).bus.memory).2.toList ++
        ((m.next c).log run).filter fun e => e.key = k := by
  rw [log, List.filter_append, filter_events_of_found hm found]

theorem stimulus_eq_unsilenced {c : Command} (hs : m.stimulus c = .unsilenced k) :
    c = .unsilence k := by
  rcases command_of_stimulus (.inr hs) with rfl | rfl
  · cases hs
  · rfl

/-- A silenced hook says nothing until it is unsilenced. -/
theorem log_of_silenced (hm : m.Serves specs) (found : m.registry.get? k = some h)
    (silenced : h.state = .silenced) {run : List Command} (kept : .unsilence k ∉ run) :
    (m.log run).filter (fun e => e.key = k) = [] := by
  induction run generalizing m h with
  | nil => rfl
  | cons c run ih =>
    rw [List.mem_cons, not_or] at kept
    obtain ⟨first, others⟩ := kept
    have key := ((Registry.get?_eq_some_iff hm.registry.nodup_keys).1 found).2
    have other : m.stimulus c ≠ .unsilenced h.key := by
      rw [key]
      exact fun hs => first (stimulus_eq_unsilenced hs).symm
    obtain ⟨silent, still⟩ := Hook.respond_of_silenced silenced other (m.next c).bus.memory
    have moved := get?_next_of_found hm found c
    rw [filter_log_cons hm found, silent, ih (hm.next c) moved still others]
    rfl

/-- A hook on which nothing waits says nothing until a store strikes it. -/
theorem log_of_unstruck (hm : m.Serves specs) (found : m.registry.get? k = some h)
    (idle : h.isPending = false) {run : List Command} (genuine : ∀ c ∈ run, c.feigned = false)
    (unstruck : ¬ m.Struck k run) : (m.log run).filter (fun e => e.key = k) = [] := by
  induction run generalizing m h with
  | nil => rfl
  | cons c run ih =>
    obtain ⟨first, others⟩ := List.forall_mem_cons.1 genuine
    obtain ⟨misses, later⟩ := not_or.1 unstruck
    obtain ⟨silent, rest, -⟩ := quiet_of_misses hm found first idle misses (m.next c).bus.memory
    have moved := get?_next_of_found hm found c
    rw [filter_log_cons hm found, silent, ih (hm.next c) moved rest others later]
    rfl

/-- Silencing or unsilencing a hook reports nothing, and leaves the hook in the new state. -/
theorem filter_log_set (hm : m.Serves specs) (found : m.registry.get? k = some h) {c : Command}
    {state : HookState} (sets : ∀ memory, h.respond (m.stimulus c) memory = (h.setIf k state, none))
    (run : List Command) :
    (m.next c).registry.get? k = some { h with state := state } ∧
      (m.log (c :: run)).filter (fun e => e.key = k) =
        ((m.next c).log run).filter fun e => e.key = k := by
  have key := ((Registry.get?_eq_some_iff hm.registry.nodup_keys).1 found).2
  refine ⟨?_, ?_⟩
  · rw [get?_next_of_found hm found, sets, Hook.setIf, if_pos key]
  · rw [filter_log_cons hm found, sets]
    rfl

/-- Silence is absolute. The channel is given the events of the run and no others; and to these a run
adds nothing under a hook's key from the moment the hook is silenced, or from the start if it starts
silenced, until it is unsilenced; nor from the moment it is unsilenced until a store strikes it,
however often it is flushed. -/
theorem silence_absolute (fresh : m.Fresh specs) {spec : HookSpec} (listed : spec ∈ specs) :
    (∀ run, (m.after run).notifier = m.notifier.report (m.log run)) ∧
      (∀ before during, .unsilence spec.key ∉ during →
        (m.log (before ++ .silence spec.key :: during)).filter (fun e => e.key = spec.key) =
          (m.log before).filter fun e => e.key = spec.key) ∧
      (spec.silenced = true → ∀ during, .unsilence spec.key ∉ during →
        (m.log during).filter (fun e => e.key = spec.key) = []) ∧
      ∀ before since, (∀ c ∈ since, c.feigned = false) →
        ¬ (m.after (before ++ [.unsilence spec.key])).Struck spec.key since →
        (m.log (before ++ .unsilence spec.key :: since)).filter (fun e => e.key = spec.key) =
          (m.log before).filter fun e => e.key = spec.key := by
  refine ⟨notifier_after fresh.serves, ?_, ?_, ?_⟩
  · -- silenced on the way
    intro before during kept
    have hm := fresh.serves.after before
    obtain ⟨h, found⟩ := hm.registry.exists_hook listed
    obtain ⟨set, silent⟩ := filter_log_set (c := .silence spec.key) hm found (fun _ => rfl) during
    rw [log_append, List.filter_append, silent, log_of_silenced (hm.next _) set rfl kept,
      List.append_nil]
  · -- silenced from the start
    intro silenced during kept
    refine log_of_silenced fresh.serves (Registry.get?_of_ofSpecs fresh.registry listed) ?_ kept
    simp [Hook.ofSpec, silenced]
  · -- unsilenced
    intro before since genuine unstruck
    have hm := fresh.serves.after before
    obtain ⟨h, found⟩ := hm.registry.exists_hook listed
    obtain ⟨set, silent⟩ := filter_log_set (c := .unsilence spec.key) hm found (fun _ => rfl) since
    rw [after_concat] at unstruck
    rw [log_append, List.filter_append, silent, log_of_unstruck (hm.next _) set rfl genuine unstruck,
      List.append_nil]

/-- A coalescing hook that starts silenced, and has a change waiting when it is silenced again: the
first store is not reported, nor is the change that waited, by the flush during the silence or by the
one after it. -/
theorem silenced_change_dropped :
    let spec : HookSpec :=
      { key := 1, start := 0x100, length := 1, coalesce := true, silenced := true }
    let m : Machine := { registry := Registry.empty.register spec }
    let start : List Command := [.store .byte 0x100 4, .flush]
    let before : List Command := start ++ [.unsilence 1, .store .byte 0xa0600100 5]
    let during : List Command := [.flush, .handleWrite 0x100 6]
    let since : List Command := [.store .word 0x104 7, .flush]
    m.Fresh [spec] ∧ spec ∈ [spec] ∧ spec.silenced = true ∧ .unsilence spec.key ∉ start ∧
      (m.log start).filter (fun e => e.key = 1) = [] ∧ .unsilence spec.key ∉ during ∧
      (m.log (before ++ .silence 1 :: during)).filter (fun e => e.key = 1) =
        (m.log before).filter (fun e => e.key = 1) ∧
      (∀ c ∈ since, c.feigned = false) ∧
      ¬ (m.after (before ++ .silence 1 :: during ++ [.unsilence 1])).Struck 1 since ∧
      (m.log (before ++ .silence 1 :: during ++ .unsilence 1 :: since)).filter (fun e => e.key = 1) =
        (m.log (before ++ .silence 1 :: during)).filter fun e => e.key = 1 := by
  intro spec m start before during since
  have fresh : m.Fresh [spec] :=
    fresh_register ⟨by decide, by decide, .ram, by decide, by decide, by decide⟩
  have listed : spec ∈ [spec] := List.mem_singleton.2 rfl
  have kept₀ : .unsilence spec.key ∉ start := by simp [start]
  have kept : .unsilence spec.key ∉ during := by simp [during]
  have genuine : ∀ c ∈ since, c.feigned = false := by simp [since, Command.feigned]
  have unstruck : ¬ (m.after (before ++ .silence 1 :: during ++ [.unsilence 1])).Struck 1 since := by
    rintro (word | flush | last)
    · revert word
      decide
    · revert flush
      decide
    · exact last
  obtain ⟨-, silenced, started, unsilenced⟩ := silence_absolute fresh listed
  exact ⟨fresh, listed, rfl, kept₀, started rfl start kept₀, kept, silenced before during kept,
    genuine, unstruck, unsilenced _ since genuine unstruck⟩

end Machine

end ConsoleBus
