import ConsoleBus.Proofs.Delivery
import ConsoleBus.Proofs.Matching
import Mathlib.Data.List.Induction

/-!
Whether an update is reported. A store that touches a hook which is not silenced, and a flush after
it, make the hook report its bytes, with one exception: a hook with dedupe and coalescing set keeps
the bytes of a change that waits in its snapshot, and when silencing drops the change the snapshot
stays, so that a later store of the same bytes is passed over although they were never reported
(`Machine.update_reported_iff`).
-/

namespace ConsoleBus

namespace Hook

variable {h : Hook} {s : Stimulus} {m : Memory} {now : ByteArray}

/-! ### One hook by itself -/

/-- Whether a store that left these bytes is passed over: nothing waits, and the snapshot has the
same bytes. -/
def Passes (h : Hook) (now : ByteArray) : Prop :=
  h.isPending = false ∧ h.dedupe = true ∧ h.last = some now

theorem value_of_blank {h' : Hook} (same : h'.blank = h.blank) (m : Memory) :
    h'.value m = h.value m := by
  obtain ⟨-, start, length, -, -⟩ := blank_eq_iff.1 same
  rw [value, value, start, length]

theorem event_of_blank {h' : Hook} (same : h'.blank = h.blank) (bytes : ByteArray) :
    h'.event bytes = h.event bytes := by
  rw [event, event, (blank_eq_iff.1 same).1]

@[simp] theorem state_remember (h : Hook) (bytes : ByteArray) :
    (h.remember bytes).state = h.state := by
  unfold remember
  split <;> rfl

@[simp] theorem isPending_remember (h : Hook) (bytes : ByteArray) :
    (h.remember bytes).isPending = h.isPending := by
  rw [isPending, isPending, state_remember]

theorem last_remember (dedupe : h.dedupe = true) (bytes : ByteArray) :
    (h.remember bytes).last = some bytes := by
  rw [remember, if_pos dedupe]

/-- What a touch does: nothing, or one of three moves that bring the snapshot up to date. -/
theorem touch_cases (hv : h.value m = .ok now) :
    (h.touch m = (h, none) ∧
        (h.state = .silenced ∨ h.state = .unpushedChanges ∨ h.dedupe = true ∧ h.last = some now)) ∨
      (h.touch m = ({ h with state := .unpushedChanges }.remember now, none) ∧
        h.state = .pushedChanges) ∨
      ¬ (h.dedupe = true ∧ h.last = some now) ∧ h.state = .noChanges ∧
        ((h.touch m = ({ h with state := .pushedChanges }.remember now, none) ∧
            h.coalesce = true) ∨
          (h.touch m = (h.remember now, some (h.event now)) ∧ h.coalesce = false)) := by
  unfold touch
  rw [hv]
  by_cases deaf : h.state = .silenced ∨ h.state = .unpushedChanges
  · rw [if_pos deaf]
    exact .inl ⟨rfl, deaf.imp_right .inl⟩
  · rw [if_neg deaf]
    by_cases passed : h.dedupe = true ∧ h.last = some now
    · exact .inl ⟨if_pos passed, .inr (.inr passed)⟩
    · right
      simp only [if_neg passed]
      by_cases pushed : h.state = .pushedChanges
      · rw [if_pos pushed]
        exact .inl ⟨rfl, pushed⟩
      · rw [if_neg pushed]
        have idle : h.state = .noChanges := by
          cases hs : h.state <;> simp [hs] at deaf pushed ⊢
        refine .inr ⟨passed, idle, ?_⟩
        by_cases coalesce : h.coalesce = true
        · exact .inl ⟨if_pos coalesce, coalesce⟩
        · exact .inr ⟨if_neg coalesce, Bool.eq_false_iff.2 coalesce⟩

theorem flush_of_idle (idle : h.isPending = false) : h.flush m = (h, none) := by
  rw [flush, if_neg (Bool.eq_false_iff.1 idle)]

theorem flush_of_pending (pending : h.isPending = true) (hv : h.value m = .ok now) :
    h.flush m = ({ h with state := .noChanges }.remember now, some (h.event now)) := by
  rw [flush, if_pos pending, hv]

/-- After a flush nothing waits. -/
theorem isPending_flush (h : Hook) (m : Memory) : (h.flush m).1.isPending = false := by
  unfold flush
  split
  · cases h.value m with
    | error e => rfl
    | ok bytes => exact isPending_remember _ bytes
  · next idle => exact Bool.eq_false_iff.2 idle

/-- A touch and a flush together report the bytes once, unless the store is passed over. -/
theorem touch_flush (hv : h.value m = .ok now) (awake : h.state ≠ .silenced) :
    (h.Passes now → (h.touch m).2 = none ∧ ((h.touch m).1.flush m).2 = none) ∧
      (¬ h.Passes now →
        (h.touch m).2.toList ++ ((h.touch m).1.flush m).2.toList = [h.event now]) := by
  have hv' : (h.touch m).1.value m = .ok now := (value_of_blank (blank_touch h m) m).trans hv
  have event' := event_of_blank (blank_touch h m) now
  -- a touch that leaves a change waiting is reported by the flush
  have waits (silent : (h.touch m).2 = none) (pending : (h.touch m).1.isPending = true) :
      (h.touch m).2.toList ++ ((h.touch m).1.flush m).2.toList = [h.event now] := by
    rw [silent, flush_of_pending pending hv', event']
    rfl
  rcases touch_cases hv with ⟨touched, deaf⟩ | ⟨touched, pushed⟩ | ⟨news, idle, moved⟩
  · refine ⟨fun passes => ?_, fun news => waits (by rw [touched]) ?_⟩
    · rw [touched]
      exact ⟨rfl, by rw [flush_of_idle passes.1]⟩
    · rw [touched]
      rcases deaf with silenced | waiting | same
      · exact absurd silenced awake
      · simp [isPending, waiting]
      · exact Bool.of_not_eq_false fun idle => news ⟨idle, same⟩
  · refine ⟨fun passes => ?_, fun _ => waits (by rw [touched]) (by simp [touched, isPending])⟩
    have := passes.1
    simp [isPending, pushed] at this
  · refine ⟨fun passes => absurd passes.2 news, fun _ => ?_⟩
    rcases moved with ⟨touched, -⟩ | ⟨touched, -⟩
    · exact waits (by rw [touched]) (by simp [touched, isPending])
    · have rest : (h.remember now).isPending = false := by simp [isPending, idle]
      rw [touched, flush_of_idle rest]
      rfl

/-- Only coalescing hooks have changes waiting, and with dedupe set they keep their bytes. -/
def Sound (h : Hook) : Prop :=
  h.isPending = true → h.coalesce = true ∧ (h.dedupe = true → h.last ≠ none)

/-- A hook that has just seen bytes while a change waits is sound. -/
theorem sound_remember {state : HookState} (coalesce : h.coalesce = true) :
    ({ h with state := state }.remember now).Sound := by
  intro _
  obtain ⟨-, -, -, dedupe', coalesce'⟩ :=
    blank_eq_iff.1 (blank_remember { h with state := state } now)
  refine ⟨coalesce'.trans coalesce, fun dedupe => ?_⟩
  rw [last_remember (dedupe'.symm.trans dedupe)]
  exact Option.some_ne_none now

theorem sound_of_idle (idle : h.isPending = false) : h.Sound := by
  intro pending
  rw [idle] at pending
  cases pending

theorem sound_touch (hs : h.Sound) (hv : h.value m = .ok now) : (h.touch m).1.Sound := by
  rcases touch_cases hv with ⟨touched, -⟩ | ⟨touched, pushed⟩ | ⟨-, idle, moved⟩
  · rwa [touched]
  · rw [touched]
    exact sound_remember (hs (by simp [isPending, pushed])).1
  · rcases moved with ⟨touched, coalesce⟩ | ⟨touched, -⟩
    · rw [touched]
      exact sound_remember coalesce
    · rw [touched]
      exact sound_of_idle (by simp [isPending, idle])

theorem sound_respond (hs : h.Sound) (hv : h.value m = .ok now) : (h.respond s m).1.Sound := by
  have set (key : UInt8) (state : HookState) (rest : state ≠ .pushedChanges)
      (rest' : state ≠ .unpushedChanges) : (h.setIf key state).Sound := by
    unfold setIf
    split
    · exact sound_of_idle (by simp [isPending, rest, rest'])
    · exact hs
  cases s with
  | quiet => exact hs
  | stored addr width =>
    simp only [respond, onStore]
    split
    · exact sound_touch hs hv
    · exact hs
  | flushed => exact sound_of_idle (isPending_flush h m)
  | silenced key => exact set key _ (by decide) (by decide)
  | unsilenced key => exact set key _ (by decide) (by decide)

/-- How a hook with dedupe set comes to rest, or stays there. It reports its bytes and keeps them,
or it stays silent and keeps what it had; and then nothing waited before, or the hook was silenced
or unsilenced. -/
theorem snapshot_respond (hv : h.value m = .ok now) (dedupe : h.dedupe = true)
    (idle : (h.respond s m).1.isPending = false) :
    ((h.respond s m).2 = some (h.event now) ∧ (h.respond s m).1.last = some now) ∨
      ((h.respond s m).2 = none ∧ (h.respond s m).1.last = h.last ∧
        (h.isPending = false ∨ s = .silenced h.key ∨ s = .unsilenced h.key)) := by
  have set (key : UInt8) (state : HookState) (idle : (h.setIf key state).isPending = false) :
      (h.setIf key state).last = h.last ∧ (h.isPending = false ∨ h.key = key) := by
    unfold setIf at idle ⊢
    by_cases same : h.key = key
    · rw [if_pos same]
      exact ⟨rfl, .inr same⟩
    · rw [if_neg same] at idle ⊢
      exact ⟨rfl, .inl idle⟩
  cases s with
  | quiet => exact .inr ⟨rfl, rfl, .inl idle⟩
  | stored addr width =>
    simp only [respond, onStore] at idle ⊢
    split at idle
    · rename_i touches
      rw [if_pos touches]
      rcases touch_cases hv with ⟨touched, -⟩ | ⟨touched, -⟩ | ⟨-, -, moved⟩
      · rw [touched] at idle ⊢
        exact .inr ⟨rfl, rfl, .inl idle⟩
      · rw [touched] at idle
        simp [isPending] at idle
      · rcases moved with ⟨touched, -⟩ | ⟨touched, -⟩
        · rw [touched] at idle
          simp [isPending] at idle
        · rw [touched]
          exact .inl ⟨rfl, last_remember dedupe now⟩
    · rename_i misses
      rw [if_neg misses]
      exact .inr ⟨rfl, rfl, .inl idle⟩
  | flushed =>
    by_cases pending : h.isPending = true
    · have flushed : h.respond .flushed m = _ := flush_of_pending pending hv
      rw [flushed]
      exact .inl ⟨rfl, last_remember (h := { h with state := .noChanges }) dedupe now⟩
    · have idle : h.isPending = false := Bool.eq_false_iff.2 pending
      have flushed : h.respond .flushed m = (h, none) := flush_of_idle idle
      rw [flushed]
      exact .inr ⟨rfl, rfl, .inl idle⟩
  | silenced key =>
    obtain ⟨kept, rest⟩ := set key _ idle
    exact .inr ⟨rfl, kept, rest.imp_right fun same => .inl (by rw [same])⟩
  | unsilenced key =>
    obtain ⟨kept, rest⟩ := set key _ idle
    exact .inr ⟨rfl, kept, rest.imp_right fun same => .inr (by rw [same])⟩

/-- Only a flush gets anything out of a coalescing hook. -/
theorem respond_of_coalesce (hv : h.value m = .ok now) (coalesce : h.coalesce = true)
    (other : s ≠ .flushed) : (h.respond s m).2 = none := by
  cases s with
  | stored addr width =>
    simp only [respond, onStore]
    split
    · rcases touch_cases hv with ⟨touched, -⟩ | ⟨touched, -⟩ | ⟨-, -, ⟨touched, -⟩ | ⟨-, immediate⟩⟩
      · rw [touched]
      · rw [touched]
      · rw [touched]
      · rw [coalesce] at immediate
        cases immediate
    · rfl
  | flushed => exact absurd rfl other
  | _ => rfl

/-- A coalescing hook on which nothing waits emits nothing. -/
theorem respond_of_idle (coalesce : h.coalesce = true) (idle : h.isPending = false)
    (hv : h.value m = .ok now) : (h.respond s m).2 = none := by
  by_cases flushed : s = .flushed
  · subst flushed
    exact congrArg Prod.snd (flush_of_idle idle)
  · exact respond_of_coalesce hv coalesce flushed

end Hook

/-! ### The last report -/

/-- The last event with a key. -/
def lastEvent? (k : UInt8) (events : List HookEvent) : Option HookEvent :=
  (events.filter fun e => e.key = k).getLast?

theorem lastEvent?_append (k : UInt8) (earlier later : List HookEvent) :
    lastEvent? k (earlier ++ later) = (lastEvent? k later).or (lastEvent? k earlier) := by
  rw [lastEvent?, List.filter_append, List.getLast?_append]
  rfl

namespace Machine

variable {m : Machine} {specs : List HookSpec} {run : List Command} {k : UInt8} {h : Hook}

@[simp] theorem after_concat (m : Machine) (run : List Command) (c : Command) :
    m.after (run ++ [c]) = (m.after run).next c := by
  rw [after_append]
  rfl

/-- One more command adds what the hook emits on it. -/
theorem lastEvent?_concat (hm : m.Serves specs) (run : List Command) (c : Command)
    (found : (m.after run).registry.get? k = some h) :
    lastEvent? k (m.log (run ++ [c])) =
      (h.respond ((m.after run).stimulus c) ((m.after run).next c).bus.memory).2.or
        (lastEvent? k (m.log run)) := by
  have emitted := filter_events (hm.after run) c k
  rw [found] at emitted
  rw [log_append, lastEvent?_append]
  congr 1
  rw [log, log, List.append_nil, lastEvent?, emitted, Option.bind_some]
  cases (h.respond ((m.after run).stimulus c) ((m.after run).next c).bus.memory).2 <;> rfl

/-- One more command moves a hook by its response. -/
theorem get?_concat (hm : m.Serves specs) (run : List Command) (c : Command)
    (found : (m.after run).registry.get? k = some h) :
    (m.after (run ++ [c])).registry.get? k =
      some (h.respond ((m.after run).stimulus c) ((m.after run).next c).bus.memory).1 := by
  rw [after_concat, get?_next_of_found (hm.after run) found]

/-- A hook that has just been registered has seen nothing. -/
theorem Fresh.untouched (fresh : m.Fresh specs) (found : m.registry.get? k = some h) :
    h.last = none ∧ h.isPending = false := by
  obtain ⟨-, -, made⟩ := Registry.ofSpecs_eq_ok_iff.1 fresh.registry
  have listed := ((Registry.get?_eq_some_iff fresh.serves.registry.nodup_keys).1 found).1
  rw [made, Registry.hooks_foldl_register] at listed
  obtain ⟨s, -, rfl⟩ := List.mem_map.1 (show h ∈ specs.map Hook.ofSpec from listed)
  refine ⟨rfl, ?_⟩
  unfold Hook.isPending Hook.ofSpec
  cases s.silenced <;> rfl

/-- The hook with a key before one more command, and its response to it. -/
theorem exists_before (hm : m.Serves specs) {run : List Command} {c : Command}
    (found : (m.after (run ++ [c])).registry.get? k = some h) :
    ∃ h₀, (m.after run).registry.get? k = some h₀ ∧
      h = (h₀.respond ((m.after run).stimulus c) ((m.after run).next c).bus.memory).1 := by
  rw [after_concat, get?_next (hm.after run)] at found
  obtain ⟨h₀, before, moved⟩ := Option.map_eq_some_iff.1 found
  exact ⟨h₀, before, moved.symm⟩

theorem sound_after (fresh : m.Fresh specs) (run : List Command)
    (found : (m.after run).registry.get? k = some h) : h.Sound := by
  induction run using List.reverseRecOn generalizing h with
  | nil => exact Hook.sound_of_idle (fresh.untouched found).2
  | append_singleton run c ih =>
    obtain ⟨h₀, before, rfl⟩ := exists_before fresh.serves found
    obtain ⟨now, hv⟩ := exists_value (fresh.serves.after run) before
      ((m.after run).next c).bus.memory
    exact Hook.sound_respond (ih before) hv

/-- In this run a change that waited on the hook with a key was dropped, when the hook was silenced
or unsilenced, while the hook had these bytes in its snapshot; and since then no change has
waited. -/
def Forgets (m : Machine) (run : List Command) (k : UInt8) (bytes : ByteArray) : Prop :=
  ∃ before c since, run = before ++ c :: since ∧ (c = .silence k ∨ c = .unsilence k) ∧
    (∃ h, (m.after before).registry.get? k = some h ∧ h.isPending = true ∧ h.last = some bytes) ∧
    ∀ part, part <+: since → ∀ h, (m.after (before ++ c :: part)).registry.get? k = some h →
      h.isPending = false

/-- Only the two commands themselves silence or unsilence a hook. -/
theorem command_of_stimulus {c : Command}
    (hs : m.stimulus c = .silenced k ∨ m.stimulus c = .unsilenced k) :
    c = .silence k ∨ c = .unsilence k := by
  cases c with
  | store w addr value =>
    simp only [stimulus] at hs
    split at hs <;> simp at hs
  | handleWrite addr value =>
    simp only [stimulus] at hs
    split at hs <;> simp at hs
  | silence key => simpa [stimulus] using hs
  | unsilence key => simpa [stimulus] using hs
  | _ => simp [stimulus] at hs

/-- As long as nothing waits, a forgotten change stays forgotten. -/
theorem Forgets.concat {bytes : ByteArray} (forgets : m.Forgets run k bytes) {c : Command}
    (found : (m.after (run ++ [c])).registry.get? k = some h) (idle : h.isPending = false) :
    m.Forgets (run ++ [c]) k bytes := by
  obtain ⟨before, d, since, rfl, silences, waited, quiet⟩ := forgets
  refine ⟨before, d, since ++ [c], by simp, silences, waited, fun part hpart h' found' => ?_⟩
  rcases List.prefix_concat_iff.1 hpart with rfl | earlier
  · have whole : before ++ d :: (since ++ [c]) = before ++ d :: since ++ [c] := by simp
    rw [whole, found] at found'
    cases found'
    exact idle
  · exact quiet part earlier h' found'

/-- The snapshot of a hook with dedupe set, on which nothing waits, is what the hook reported last,
or else what it had seen when a change was forgotten. -/
theorem snapshot_reported_or_forgotten (fresh : m.Fresh specs) (run : List Command)
    (found : (m.after run).registry.get? k = some h) (dedupe : h.dedupe = true)
    (idle : h.isPending = false) :
    h.last.map h.event = lastEvent? k (m.log run) ∨
      h.coalesce = true ∧ ∃ bytes, h.last = some bytes ∧ m.Forgets run k bytes := by
  induction run using List.reverseRecOn generalizing h with
  | nil =>
    rw [(fresh.untouched found).1]
    exact .inl rfl
  | append_singleton run c ih =>
    obtain ⟨h₀, before, rfl⟩ := exists_before fresh.serves found
    obtain ⟨now, hv⟩ := exists_value (fresh.serves.after run) before
      ((m.after run).next c).bus.memory
    have same := Hook.blank_respond h₀ ((m.after run).stimulus c) ((m.after run).next c).bus.memory
    obtain ⟨-, -, -, dedupe', coalesce'⟩ := Hook.blank_eq_iff.1 same
    have event' := funext (Hook.event_of_blank same)
    have dedupe₀ := dedupe'.symm.trans dedupe
    rw [lastEvent?_concat fresh.serves run c before, event', coalesce']
    rcases Hook.snapshot_respond hv dedupe₀ idle with ⟨emitted, kept⟩ | ⟨silent, kept, rest⟩
    · rw [emitted, kept]
      exact .inl rfl
    · rw [silent, kept, Option.none_or]
      by_cases idle₀ : h₀.isPending = false
      · rcases ih before dedupe₀ idle₀ with reported | ⟨coalesce, bytes, seen, forgets⟩
        · exact .inl reported
        · exact .inr ⟨coalesce, bytes, seen, forgets.concat found idle⟩
      · -- the change that waited was dropped just now
        have pending : h₀.isPending = true := Bool.of_not_eq_false idle₀
        obtain ⟨coalesce, seen⟩ := sound_after fresh run before pending
        obtain ⟨bytes, last⟩ := Option.ne_none_iff_exists'.1 (seen dedupe₀)
        have key : h₀.key = k :=
          ((Registry.get?_eq_some_iff (fresh.serves.after run).registry.nodup_keys).1 before).2
        have silences := rest.resolve_left idle₀
        rw [key] at silences
        refine .inr ⟨coalesce, bytes, last, run, c, [], rfl, command_of_stimulus silences,
          ⟨h₀, before, pending, last⟩, fun part hpart h' found' => ?_⟩
        rw [List.prefix_nil.1 hpart, found] at found'
        cases found'
        exact idle

/-- A forgotten change leaves its bytes in the snapshot, and nothing waits. -/
theorem snapshot_of_forgets (fresh : m.Fresh specs) {bytes : ByteArray}
    (forgets : m.Forgets run k bytes) (found : (m.after run).registry.get? k = some h)
    (dedupe : h.dedupe = true) (coalesce : h.coalesce = true) :
    h.isPending = false ∧ h.last = some bytes := by
  obtain ⟨before, c, since, rfl, silences, ⟨h₁, found₁, -, last₁⟩, quiet⟩ := forgets
  refine ⟨quiet since (List.prefix_refl since) h found, ?_⟩
  induction since using List.reverseRecOn generalizing h with
  | nil =>
    obtain ⟨h₀, found₀, rfl⟩ := exists_before fresh.serves found
    rw [found₁] at found₀
    cases found₀
    rcases silences with rfl | rfl <;>
    · simp only [stimulus, Hook.respond, Hook.setIf]
      split <;> exact last₁
  | append_singleton since d ih =>
    have whole : before ++ c :: (since ++ [d]) = before ++ c :: since ++ [d] := by simp
    have idle := quiet _ (List.prefix_refl _) h found
    rw [whole] at found
    obtain ⟨h₀, found₀, rfl⟩ := exists_before fresh.serves found
    have earlier : since <+: since ++ [d] := List.prefix_append since [d]
    have dedupe₀ := (Hook.dedupe_respond h₀ _ _).symm.trans dedupe
    have coalesce₀ := (Hook.coalesce_respond h₀ _ _).symm.trans coalesce
    have last₀ := ih dedupe₀ coalesce₀ found₀ fun part hpart => quiet part (hpart.trans earlier)
    obtain ⟨now, hv⟩ := exists_value (fresh.serves.after _) found₀
      ((m.after (before ++ c :: since)).next d).bus.memory
    have silent := Hook.respond_of_idle (s := (m.after (before ++ c :: since)).stimulus d) coalesce₀
      (quiet since earlier h₀ found₀) hv
    rcases Hook.snapshot_respond hv dedupe₀ idle with ⟨emitted, -⟩ | ⟨-, kept, -⟩
    · rw [silent] at emitted
      cases emitted
    · exact kept.trans last₀

/-! ### A store and the flush after it -/

/-- Flushes leave the bus alone. -/
theorem bus_flushes (m : Machine) (n : Nat) : (m.after (List.replicate n .flush)).bus = m.bus := by
  induction n generalizing m with
  | zero => rfl
  | succ n ih => exact ih (m.next .flush)

theorem bus_store_flushes (m : Machine) (before : List Command) (c : Command) (n : Nat) :
    (m.after (before ++ c :: List.replicate n .flush)).bus = ((m.after before).next c).bus := by
  rw [after_append, after_cons, bus_flushes]

/-- Flushes emit nothing for a hook on which nothing waits. -/
theorem lastEvent?_flushes (hm : m.Serves specs) (found : m.registry.get? k = some h)
    (idle : h.isPending = false) (n : Nat) :
    lastEvent? k (m.log (List.replicate n .flush)) = none := by
  induction n generalizing m h with
  | zero => rfl
  | succ n ih =>
    have kept : h.respond (m.stimulus .flush) (m.next .flush).bus.memory = (h, none) :=
      Hook.flush_of_idle idle
    have found' : (m.next .flush).registry.get? k = some h := by
      rw [get?_next_of_found hm found, kept]
    have now := filter_events hm .flush k
    rw [found, Option.bind_some, kept] at now
    rw [List.replicate_succ, log, lastEvent?_append, ih (hm.next .flush) found' idle, lastEvent?,
      now]
    rfl

/-- After a store that touches a hook and at least one flush, the last event of the hook carries its
bytes, unless the store was passed over; then it is what it was before. -/
theorem lastEvent?_update (hm : m.Serves specs) (before : List Command) {c : Command} (n : Nat)
    (found : (m.after before).registry.get? k = some h) (awake : h.state ≠ .silenced)
    (touches : h.respond ((m.after before).stimulus c) ((m.after before).next c).bus.memory =
      h.touch ((m.after before).next c).bus.memory)
    {now : ByteArray} (hv : h.value ((m.after before).next c).bus.memory = .ok now) :
    (h.Passes now → lastEvent? k (m.log (before ++ c :: List.replicate (n + 1) .flush)) =
        lastEvent? k (m.log before)) ∧
      (¬ h.Passes now → lastEvent? k (m.log (before ++ c :: List.replicate (n + 1) .flush)) =
        some (h.event now)) := by
  have split : before ++ c :: List.replicate (n + 1) .flush =
      before ++ [c] ++ [.flush] ++ List.replicate n .flush := by simp [List.replicate_succ]
  have stored : (m.after (before ++ [c])).registry.get? k =
      some (h.touch ((m.after before).next c).bus.memory).1 := by
    rw [get?_concat hm before c found, touches]
  have flushed : (m.after (before ++ [c] ++ [.flush])).registry.get? k =
      some ((h.touch ((m.after before).next c).bus.memory).1.flush
        ((m.after before).next c).bus.memory).1 := by
    rw [get?_concat hm _ .flush stored, after_concat]
    rfl
  have last : lastEvent? k (m.log (before ++ c :: List.replicate (n + 1) .flush)) =
      ((h.touch ((m.after before).next c).bus.memory).1.flush
        ((m.after before).next c).bus.memory).2.or
          ((h.touch ((m.after before).next c).bus.memory).2.or (lastEvent? k (m.log before))) := by
    rw [split, log_append, lastEvent?_append,
      lastEvent?_flushes (hm.after _) flushed (Hook.isPending_flush _ _), Option.none_or,
      lastEvent?_concat hm _ _ stored, lastEvent?_concat hm _ _ found, touches, after_concat]
    rfl
  obtain ⟨passed, reported⟩ := Hook.touch_flush hv awake
  rw [last]
  refine ⟨fun passes => ?_, fun news => ?_⟩
  · rw [(passed passes).1, (passed passes).2, Option.none_or, Option.none_or]
  · specialize reported news
    revert reported
    cases (h.touch ((m.after before).next c).bus.memory).2 <;>
      cases ((h.touch ((m.after before).next c).bus.memory).1.flush
        ((m.after before).next c).bus.memory).2 <;> simp

/-- A store that reaches a byte of a hook touches the hook. -/
theorem respond_of_shared (hm : m.Serves specs) {c : Command} {addr : Address} {bytes : Bytes}
    (hp : c.place? = some (addr, bytes)) (found : m.registry.get? k = some h)
    (shared : ∃ loc, m.bus.Writes addr bytes.length loc ∧ h.Watches loc) (memory : Memory) :
    h.respond (m.stimulus c) memory = h.touch memory := by
  have listed := ((Registry.get?_eq_some_iff hm.registry.nodup_keys).1 found).1
  rw [respond_of_place hm hp listed, if_pos ((reaches_iff_shared_byte hm hp listed).2 shared)]

/-- No update is lost, with one exception. A store that reaches a byte of a hook which is not
silenced, and a flush after it, have the hook's last event carry the bytes that are in memory then;
only for a hook with dedupe and coalescing set they do not, if just these bytes belonged to a change
that was forgotten and the last event does not carry them. -/
theorem update_reported_iff (fresh : m.Fresh specs) (sink : m.notifier.sink.Reliable)
    (before : List Command) (n : Nat) {c : Command} {addr : Address} {bytes : Bytes}
    (hp : c.place? = some (addr, bytes)) (found : (m.after before).registry.get? k = some h)
    (awake : h.state ≠ .silenced)
    (shared : ∃ loc, (m.after before).bus.Writes addr bytes.length loc ∧ h.Watches loc) :
    (m.after (before ++ c :: List.replicate (n + 1) .flush)).notifier.sink.accepted =
        m.notifier.sink.accepted ++ Notification.encodeAll
          ((m.log (before ++ c :: List.replicate (n + 1) .flush)).map .hookFired) ∧
      ∃ now,
        h.value (m.after (before ++ c :: List.replicate (n + 1) .flush)).bus.memory = .ok now ∧
        (lastEvent? k (m.log (before ++ c :: List.replicate (n + 1) .flush)) =
            some (h.event now) ↔
          ¬ (h.dedupe = true ∧ h.coalesce = true ∧ m.Forgets before k now ∧
            lastEvent? k (m.log before) ≠ some (h.event now))) := by
  have touches := respond_of_shared (fresh.serves.after before) hp found shared
  obtain ⟨now, hv⟩ := exists_value (fresh.serves.after before) found
    ((m.after before).next c).bus.memory
  obtain ⟨passed, reported⟩ := lastEvent?_update fresh.serves before n found awake (touches _) hv
  refine ⟨?_, now, by rw [bus_store_flushes]; exact hv, ?_⟩
  · rw [notifier_after fresh.serves]
    exact (Notifier.report_spec sink _).1
  · constructor
    · rintro reports ⟨dedupe, coalesce, forgets, differs⟩
      obtain ⟨idle, last⟩ := snapshot_of_forgets fresh forgets found dedupe coalesce
      rw [passed ⟨idle, dedupe, last⟩] at reports
      exact differs reports
    · intro remembered
      by_cases passes : h.Passes now
      · obtain ⟨idle, dedupe, last⟩ := passes
        rw [passed ⟨idle, dedupe, last⟩]
        by_contra differs
        rcases snapshot_reported_or_forgotten fresh before found dedupe idle with same | forgotten
        · rw [last] at same
          exact differs same.symm
        · obtain ⟨coalesce, seen, last', forgets⟩ := forgotten
          rw [last] at last'
          cases last'
          exact remembered ⟨dedupe, coalesce, forgets, differs⟩
      · exact reported passes

/-- Two bytes that are stored through a mirror are reported with what stands beside them. -/
theorem mirrored_update_reported :
    let spec : HookSpec := { key := 1, start := 0, length := 4, coalesce := true }
    let m : Machine := { registry := Registry.empty.register spec }
    let c : Command := .store .half 0xa0600002 7
    m.Fresh [spec] ∧ m.notifier.sink.Reliable ∧ c.place? = some (0xa0600002, [7, 0]) ∧
      m.registry.get? 1 = some (Hook.ofSpec spec) ∧ (Hook.ofSpec spec).state ≠ .silenced ∧
      (∃ loc, m.bus.Writes 0xa0600002 2 loc ∧ (Hook.ofSpec spec).Watches loc) ∧
      ∃ now, (Hook.ofSpec spec).value (m.after [c, .flush]).bus.memory = .ok now ∧
        lastEvent? 1 (m.log [c, .flush]) = some ((Hook.ofSpec spec).event now) := by
  intro spec m c
  have fresh : m.Fresh [spec] := by
    refine ⟨rfl, Registry.ofSpecs_eq_ok_iff.2 ⟨fun s hs => ?_, by decide, rfl⟩⟩
    rw [List.mem_singleton.1 hs]
    exact ⟨by decide, by decide, .ram, by decide, by decide, by decide⟩
  have hp : c.place? = some (0xa0600002, [7, 0]) := by decide
  have found : m.registry.get? 1 = some (Hook.ofSpec spec) := by decide
  have located : PageTable.powerOnRead.locate 0 = .ok ⟨.ram, 0⟩ :=
    PageTable.locate_powerOnRead_iff.2 ⟨by decide, 0, by decide, by decide⟩
  have shared : ∃ loc, m.bus.Writes 0xa0600002 2 loc ∧ (Hook.ofSpec spec).Watches loc :=
    ⟨⟨.ram, 2⟩, ⟨⟨.ram, 2, 2⟩, ⟨by decide, by decide⟩, rfl, by decide, by decide⟩,
      ⟨.ram, 0, 4⟩, PageTable.resolveRange_eq_ok_iff.2 ⟨located, by decide, by decide⟩,
      rfl, by decide, by decide⟩
  obtain ⟨-, now, hv, reported⟩ :=
    update_reported_iff fresh Sink.reliable_new [] 0 hp found (by decide) shared
  refine ⟨fresh, Sink.reliable_new, hp, found, by decide, shared, now, hv, reported.2 ?_⟩
  rintro ⟨dedupe, -⟩
  cases dedupe

/-- A byte that is stored, forgotten and stored again is not reported. -/
theorem forgotten_byte_unreported :
    let spec : HookSpec :=
      { key := 1, start := 0x100, length := 1, dedupe := true, coalesce := true }
    let m : Machine := { registry := Registry.empty.register spec }
    let c : Command := .store .byte 0x100 5
    let before : List Command := [c, .silence 1, .unsilence 1]
    m.Fresh [spec] ∧ m.notifier.sink.Reliable ∧ c.place? = some (0x100, [5]) ∧
      ∃ h, (m.after before).registry.get? 1 = some h ∧ h.state ≠ .silenced ∧
        (∃ loc, (m.after before).bus.Writes 0x100 1 loc ∧ h.Watches loc) ∧
        ∃ now, h.value (m.after (before ++ c :: List.replicate 1 .flush)).bus.memory = .ok now ∧
          lastEvent? 1 (m.log (before ++ c :: List.replicate 1 .flush)) ≠ some (h.event now) := by
  intro spec m c before
  have fresh : m.Fresh [spec] := by
    refine ⟨rfl, Registry.ofSpecs_eq_ok_iff.2 ⟨fun s hs => ?_, by decide, rfl⟩⟩
    rw [List.mem_singleton.1 hs]
    exact ⟨by decide, by decide, .ram, by decide, by decide, by decide⟩
  have hp : c.place? = some (0x100, [5]) := by decide
  have resolved : PageTable.powerOnRead.resolveRange 0x100 1 = .ok ⟨.ram, 0x100, 1⟩ :=
    PageTable.resolveRange_eq_ok_iff.2 ⟨PageTable.locate_powerOnRead_iff.2
      ⟨by decide, 0, by decide, by decide⟩, by decide, rfl⟩
  -- at both stores isolation is off, so the byte lands in the hook, whatever the hook has seen
  have lands (run : List Command) (awake : (m.after run).bus.isolation.active = false) :
      (m.after run).bus.Lands 0x100 1 ⟨.ram, 0x100, 1⟩ :=
    ⟨by decide, fun isolated => by rw [awake] at isolated; cases isolated.1⟩
  have shared (run : List Command) (awake : (m.after run).bus.isolation.active = false) (h : Hook)
      (same : h.blank = (Hook.ofSpec spec).blank) :
      ∃ loc, (m.after run).bus.Writes 0x100 1 loc ∧ h.Watches loc := by
    obtain ⟨-, start, length, -, -⟩ := Hook.blank_eq_iff.1 same
    refine ⟨⟨.ram, 0x100⟩, ⟨_, lands run awake, rfl, by decide, by decide⟩,
      ⟨.ram, 0x100, 1⟩, ?_, rfl, by decide, by decide⟩
    rw [start, length]
    exact resolved
  have value (run : List Command) (awake : (m.after run).bus.isolation.active = false) (h : Hook)
      (same : h.blank = (Hook.ofSpec spec).blank) :
      h.value ((m.after run).next c).bus.memory = .ok ⟨#[5]⟩ := by
    have sited : (Hook.ofSpec spec).Sited ⟨.ram, 0x100, 1⟩ :=
      ⟨resolved, by decide, by decide, by decide, by decide⟩
    exact (sited.of_blank same).value_eq_ok_iff.2
      (read?_of_place (fresh.serves.after run) hp (by decide) (lands run awake))
  have found₀ : (m.after []).registry.get? 1 = some (Hook.ofSpec spec) := by decide
  have touched : (Hook.ofSpec spec).respond (m.stimulus c) (m.next c).bus.memory =
      ({ Hook.ofSpec spec with state := .pushedChanges, last := some ⟨#[5]⟩ }, none) := by
    have value₁ : (Hook.ofSpec spec).value (m.next c).bus.memory = .ok ⟨#[5]⟩ := value [] rfl _ rfl
    rw [respond_of_shared fresh.serves hp found₀ (shared [] rfl _ rfl), Hook.touch, value₁]
    rfl
  have found₁ : (m.after [c]).registry.get? 1 =
      some { Hook.ofSpec spec with state := .pushedChanges, last := some ⟨#[5]⟩ } :=
    (get?_concat fresh.serves [] c found₀).trans (congrArg (fun p => some p.1) touched)
  have found₂ : (m.after [c, .silence 1]).registry.get? 1 =
      some { Hook.ofSpec spec with state := .silenced, last := some ⟨#[5]⟩ } :=
    get?_concat fresh.serves [c] (.silence 1) found₁
  have found₃ : (m.after before).registry.get? 1 =
      some { Hook.ofSpec spec with state := .noChanges, last := some ⟨#[5]⟩ } :=
    get?_concat fresh.serves [c, .silence 1] (.unsilence 1) found₂
  have silent₁ : lastEvent? 1 (m.log [c]) = none :=
    (lastEvent?_concat fresh.serves [] c found₀).trans
      (congrArg (fun p => p.2.or none) touched)
  have silent₂ : lastEvent? 1 (m.log [c, .silence 1]) = none :=
    (lastEvent?_concat fresh.serves [c] (.silence 1) found₁).trans silent₁
  have silent₃ : lastEvent? 1 (m.log before) = none :=
    (lastEvent?_concat fresh.serves [c, .silence 1] (.unsilence 1) found₂).trans silent₂
  have awake : (m.after before).bus.isolation.active = false := rfl
  have shared₃ := shared before awake _ rfl
  have hv := value before awake _ rfl
  obtain ⟨passed, -⟩ := lastEvent?_update fresh.serves before 0 found₃ (by decide)
    (respond_of_shared (fresh.serves.after before) hp found₃ shared₃ _) hv
  refine ⟨fresh, Sink.reliable_new, hp, _, found₃, by decide, shared₃, ⟨#[5]⟩, ?_, ?_⟩
  · rw [bus_store_flushes]
    exact hv
  · rw [passed ⟨rfl, rfl, rfl⟩, silent₃]
    nofun

end Machine

end ConsoleBus
