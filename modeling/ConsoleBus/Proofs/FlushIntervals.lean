import ConsoleBus.Proofs.Strikes

/-!
What a flush reports. A coalescing hook without dedupe has one bit to it: whether a store has struck
it since its interval began, at the last flush or when it was last silenced or unsilenced
(`Machine.Waits`). Stores only set the bit, and a flush reports the hook just where the bit is set and
the hook is not silenced (`Machine.flush_reports_struck`).
-/

namespace ConsoleBus

namespace Hook

variable {h : Hook} {m : Memory} {now : ByteArray}

/-- A store that strikes a coalescing hook without dedupe leaves a change waiting, unless the hook is
silenced. -/
theorem isPending_touch (hv : h.value m = .ok now) (coalesce : h.coalesce = true)
    (plain : h.dedupe = false) :
    (h.touch m).1.isPending = true ↔ (h.touch m).1.state ≠ .silenced := by
  rcases touch_cases hv with ⟨touched, deaf⟩ | ⟨touched, -⟩ | ⟨-, -, moved⟩
  · rw [touched]
    rcases deaf with silenced | waiting | ⟨dedupe, -⟩
    · simp [isPending, silenced]
    · simp [isPending, waiting]
    · rw [plain] at dedupe
      cases dedupe
  · simp [touched, isPending]
  · rcases moved with ⟨touched, -⟩ | ⟨-, immediate⟩
    · simp [touched, isPending]
    · rw [coalesce] at immediate
      cases immediate

end Hook

namespace Machine

variable {m : Machine} {specs : List HookSpec} {run : List Command} {c : Command} {k : UInt8}
  {h : Hook}

/-- Some store of the run has struck the hook with this key since its interval began. -/
def Waits (m : Machine) (run : List Command) (k : UInt8) : Prop :=
  ∃ before since, run = before ++ since ∧ (∀ c ∈ since, ¬ c.Clears k) ∧
    (m.after before).Struck k since

theorem not_waits_nil (m : Machine) (k : UInt8) : ¬ m.Waits [] k := by
  rintro ⟨before, since, split, -, struck⟩
  obtain ⟨rfl, rfl⟩ := List.append_eq_nil_iff.1 split.symm
  exact struck

theorem waits_concat (m : Machine) (run : List Command) (c : Command) (k : UInt8) :
    m.Waits (run ++ [c]) k ↔ (m.after run).Strikes c k ∨ ¬ c.Clears k ∧ m.Waits run k := by
  constructor
  · rintro ⟨before, since, split, quiet, struck⟩
    rcases List.eq_nil_or_concat' since with rfl | ⟨since, d, rfl⟩
    · exact struck.elim
    · rw [← List.append_assoc] at split
      obtain ⟨rfl, last⟩ := List.append_inj' split rfl
      cases last
      rw [struck_append, ← after_append] at struck
      rcases struck with earlier | strikes | none'
      · exact .inr ⟨quiet c (by simp), before, since, rfl, fun d hd => quiet d (by simp [hd]), earlier⟩
      · exact .inl strikes
      · exact none'.elim
  · rintro (strikes | ⟨keeps, before, since, rfl, quiet, struck⟩)
    · refine ⟨run, [c], rfl, fun d hd => ?_, .inl strikes⟩
      rw [List.mem_singleton.1 hd]
      exact not_clears_of_strikes strikes
    · refine ⟨before, since ++ [c], by simp, fun d hd => ?_, ?_⟩
      · rcases List.mem_append.1 hd with earlier | last
        · exact quiet d earlier
        · rwa [List.mem_singleton.1 last]
      · rw [struck_append]
        exact .inl struck

/-- A change waits on a coalescing hook without dedupe if a store has struck it in its interval and it
is not silenced. -/
theorem isPending_iff_waits (fresh : m.Fresh specs) (run : List Command)
    (genuine : ∀ c ∈ run, c.feigned = false)
    (found : (m.after run).registry.get? k = some h) (coalesce : h.coalesce = true)
    (plain : h.dedupe = false) : h.isPending = true ↔ h.state ≠ .silenced ∧ m.Waits run k := by
  induction run using List.reverseRecOn generalizing h with
  | nil => simp [(fresh.untouched found).2, not_waits_nil]
  | append_singleton run c ih =>
    obtain ⟨h₀, before, rfl⟩ := exists_before fresh.serves found
    have hm := fresh.serves.after run
    obtain ⟨now, hv⟩ := exists_value hm before ((m.after run).next c).bus.memory
    have coalesce₀ := (Hook.coalesce_respond h₀ _ _).symm.trans coalesce
    have plain₀ := (Hook.dedupe_respond h₀ _ _).symm.trans plain
    specialize ih (fun d hd => genuine d (by simp [hd])) before coalesce₀ plain₀
    rw [waits_concat]
    rcases respond_cases hm before (genuine c (by simp)) ((m.after run).next c).bus.memory with
      ⟨strikes, moved⟩ | ⟨misses, ⟨rfl, moved⟩ | ⟨rfl, moved⟩ | ⟨rfl, moved⟩ | ⟨keeps, moved⟩⟩
    · rw [moved, Hook.isPending_touch hv coalesce₀ plain₀]
      simp [strikes]
    · rw [moved, Hook.isPending_flush]
      simp [misses, Command.Clears]
    · rw [moved]
      simp [Hook.isPending]
    · rw [moved]
      simp [Hook.isPending, misses, Command.Clears]
    · rw [moved, ih]
      simp [misses, keeps]

/-- What a flush reports, after any run from power-on. A coalescing hook without dedupe is reported by
nothing but a flush; and a flush reports it, once and with the bytes that are in memory then, if the
hook is not silenced and a store has struck it since its interval began, and not otherwise. A hook that
does not coalesce is never reported by a flush. The flush answers with the number of the events it
reported, and all of them get through. -/
theorem flush_reports_struck (fresh : m.Fresh specs) (sink : m.notifier.sink.Reliable)
    (run : List Command) (genuine : ∀ c ∈ run, c.feigned = false) :
    (∀ k h, (m.after run).registry.get? k = some h → h.coalesce = true → h.dedupe = false →
        (∀ c, c ≠ .flush → ((m.after run).events c).filter (fun e => e.key = k) = []) ∧
          ∃ now, h.value (m.after run).bus.memory = .ok now ∧
            (h.state ≠ .silenced ∧ m.Waits run k →
              ((m.after run).events .flush).filter (fun e => e.key = k) = [h.event now]) ∧
            (¬ (h.state ≠ .silenced ∧ m.Waits run k) →
              ((m.after run).events .flush).filter (fun e => e.key = k) = [])) ∧
      (∀ k h, (m.after run).registry.get? k = some h → h.coalesce = false →
        ((m.after run).events .flush).filter (fun e => e.key = k) = []) ∧
      ((m.after run).perform .flush).1 = .count ((m.after run).events .flush).length ∧
      ((m.after run).next .flush).notifier.sent =
        (m.after run).notifier.sent + ((m.after run).events .flush).length ∧
      ((m.after run).next .flush).notifier.sink.accepted =
        (m.after run).notifier.sink.accepted ++
          Notification.encodeAll (((m.after run).events .flush).map .hookFired) := by
  have hm := fresh.serves.after run
  obtain ⟨-, -, -, reliable⟩ := Notifier.report_spec sink (m.log run)
  rw [← notifier_after fresh.serves] at reliable
  obtain ⟨accepted, sent, -, -⟩ := Notifier.report_spec reliable ((m.after run).events .flush)
  rw [← (next_spec hm .flush).2] at accepted sent
  refine ⟨?_, ?_, rfl, sent, accepted⟩
  · -- a coalescing hook
    intro k h found coalesce plain
    obtain ⟨now, hv⟩ := exists_value hm found (m.after run).bus.memory
    have waits := isPending_iff_waits fresh run genuine found coalesce plain
    have flushed := filter_events_of_found hm found .flush
    refine ⟨fun c other => ?_, now, hv, fun struck => ?_, fun clear => ?_⟩
    · obtain ⟨now', hv'⟩ := exists_value hm found ((m.after run).next c).bus.memory
      rw [filter_events_of_found hm found,
        Hook.respond_of_coalesce hv' coalesce fun hs => other (stimulus_eq_flushed hs)]
      rfl
    · have reports : h.respond .flushed (m.after run).bus.memory = _ :=
        Hook.flush_of_pending (waits.2 struck) hv
      exact flushed.trans (congrArg (fun p => p.2.toList) reports)
    · have idle : h.isPending = false := Bool.eq_false_iff.2 fun pending => clear (waits.1 pending)
      exact flushed.trans (congrArg (fun p => p.2.toList) (Hook.flush_of_idle idle))
  · -- a hook that does not coalesce
    intro k h found immediate
    have idle : h.isPending = false := by
      refine Bool.eq_false_iff.2 fun pending => ?_
      rw [(sound_after fresh run found pending).1] at immediate
      cases immediate
    exact (filter_events_of_found hm found .flush).trans
      (congrArg (fun p => p.2.toList) (Hook.flush_of_idle idle))

/-- A byte stored through a mirror of RAM and a half word that runs into the hook from below, with a
word stored beside the hook between them, are reported as one change. -/
theorem burst_reported_once :
    let spec : HookSpec := { key := 1, start := 0x100, length := 1, coalesce := true }
    let m : Machine := { registry := Registry.empty.register spec }
    let run : List Command :=
      [.store .byte 0x100 5, .flush, .handleWrite 0x80600100 6, .store .word 0x104 9,
        .store .half 0xff 0x700]
    m.Fresh [spec] ∧ m.notifier.sink.Reliable ∧ (∀ c ∈ run, c.feigned = false) ∧
      ∃ h, (m.after run).registry.get? 1 = some h ∧ h.coalesce = true ∧ h.dedupe = false ∧
        h.state ≠ .silenced ∧ m.Waits run 1 ∧
        ∃ now, h.value (m.after run).bus.memory = .ok now ∧
          ((m.after run).events .flush).filter (fun e => e.key = 1) = [h.event now] := by
  intro spec m run
  have fresh : m.Fresh [spec] :=
    fresh_register ⟨by decide, by decide, .ram, by decide, by decide, by decide⟩
  have genuine : ∀ c ∈ run, c.feigned = false := by simp [run, Command.feigned]
  have found : (m.after run).registry.get? 1 =
      some { Hook.ofSpec spec with state := .unpushedChanges } := by decide
  have waits : m.Waits run 1 :=
    ⟨[.store .byte 0x100 5, .flush], [.handleWrite 0x80600100 6, .store .word 0x104 9,
      .store .half 0xff 0x700], rfl, by simp [Command.Clears], .inl (by decide)⟩
  obtain ⟨coalescing, -⟩ := flush_reports_struck fresh Sink.reliable_new run genuine
  obtain ⟨-, now, hv, reported, -⟩ := coalescing 1 _ found rfl rfl
  exact ⟨fresh, Sink.reliable_new, genuine, _, found, rfl, rfl, by decide, waits, now, hv,
    reported ⟨by decide, waits⟩⟩

end Machine

end ConsoleBus
