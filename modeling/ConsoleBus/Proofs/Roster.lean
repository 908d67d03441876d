import ConsoleBus.Proofs.Registration
import Mathlib.Data.List.Nodup

/-!
What a registry keeps. Stores, flushes and silencing change a hook's state and its snapshot and
nothing else (`Hook.blank` is what they leave alone), so a registry goes on holding the hooks of the
list that it was made from (`Registry.Serves`): the keys differ, every range has memory behind it,
and the span holds every range, so that passing over a store by the span passes over no hook.
-/

namespace ConsoleBus

namespace Hook

/-! ### What a hook keeps -/

/-- The hook with nothing seen and nothing to report. -/
def blank (h : Hook) : Hook := { h with state := .noChanges, last := none }

variable {h h' : Hook}

theorem blank_eq_iff : h.blank = h'.blank ↔ h.key = h'.key ∧ h.start = h'.start ∧
    h.length = h'.length ∧ h.dedupe = h'.dedupe ∧ h.coalesce = h'.coalesce := by
  simp [blank]

@[simp] theorem blank_remember (h : Hook) (bytes : ByteArray) :
    (h.remember bytes).blank = h.blank := by
  unfold remember
  split <;> rfl

@[simp] theorem blank_touch (h : Hook) (m : Memory) : (h.touch m).1.blank = h.blank := by
  unfold touch
  split
  · rfl
  · cases h.value m with
    | error e => rfl
    | ok bytes =>
      simp only
      split
      · rfl
      · split
        · exact blank_remember _ _
        · split
          · exact blank_remember _ _
          · exact blank_remember _ _

@[simp] theorem blank_flush (h : Hook) (m : Memory) : (h.flush m).1.blank = h.blank := by
  unfold flush
  split
  · cases h.value m with
    | error e => rfl
    | ok bytes => exact blank_remember _ _
  · rfl

@[simp] theorem blank_onStore (h : Hook) (addr : Address) (width : Nat) (m : Memory) :
    (h.onStore addr width m).1.blank = h.blank := by
  unfold onStore
  split
  · exact blank_touch h m
  · rfl

/-! ### Where a hook's bytes are -/

/-- The hook watches these bytes of a region, and its start is their canonical address. -/
structure Sited (h : Hook) (range : Range) : Prop where
  resolved : PageTable.powerOnRead.resolveRange h.start h.length.toNat = .ok range
  start_eq : h.start.toNat = range.region.home + range.offset
  fits : range.offset + range.len ≤ range.region.size
  len_eq : range.len = h.length.toNat
  len_pos : 0 < range.len

theorem Sited.of_blank {range : Range} (hs : h.Sited range) (same : h'.blank = h.blank) :
    h'.Sited range := by
  obtain ⟨-, start, length, -, -⟩ := blank_eq_iff.1 same
  exact ⟨by rw [start, length]; exact hs.resolved, by rw [start]; exact hs.start_eq, hs.fits,
    by rw [length]; exact hs.len_eq, hs.len_pos⟩

/-- The bytes of a hook in place can always be read. -/
theorem Sited.value_eq {range : Range} (hs : h.Sited range) (m : Memory) :
    h.value m = .ok ((m.region range.region).slice range.offset range.len) := by
  unfold value Memory.block Memory.blockVia
  rw [hs.resolved]

theorem Sited.value_eq_ok_iff {range : Range} (hs : h.Sited range) {m : Memory}
    {now : ByteArray} : h.value m = .ok now ↔
      m.read? range.region range.offset range.len = some now.data.toList := by
  rw [hs.value_eq, Memory.read?, Backing.read?, if_pos hs.fits]
  constructor
  · intro same
    rw [Except.ok.inj same]
  · intro same
    rw [ByteArray.ext (Array.toList_inj.1 (Option.some.inj same))]

/-- The hook of an admissible spec is in place. -/
theorem sited_ofSpec {s : HookSpec} (hs : s.Admissible) : ∃ range, (ofSpec s).Sited range := by
  obtain ⟨range, found⟩ := HookSpec.backed_iff.1 hs.backed
  obtain ⟨located, fits, hlen⟩ := PageTable.resolveRange_eq_ok_iff.1 found
  have hpos : 0 < s.length.toNat := by
    rcases Nat.eq_zero_or_pos s.length.toNat with zero | pos
    · exact absurd (UInt32.toNat.inj zero) hs.length_ne
    · exact pos
  exact ⟨range, found, (PageTable.locate_canonical_iff.1 located).1, fits, hlen, by omega⟩

end Hook

namespace Registry

/-! ### Registered lists -/

@[simp] theorem hooks_step (r : Registry) (f : Hook → Hook × Option HookEvent) :
    (r.step f).1.hooks = r.hooks.map fun h => (f h).1 := List.map_map

/-- The span holds the range of every hook. -/
def Spans (r : Registry) : Prop :=
  ∀ h ∈ r.hooks, ∃ low high, r.span = some (low, high) ∧ low ≤ h.start.toNat ∧ h.stop ≤ high

theorem spans_register {r : Registry} (hr : r.Spans) (s : HookSpec) : (r.register s).Spans := by
  intro h hh
  rcases List.mem_append.1 hh with old | new
  · obtain ⟨low, high, span, hlow, hhigh⟩ := hr h old
    refine ⟨_, _, by rw [register, span, widen], ?_, ?_⟩
    · exact Nat.le_trans (Nat.min_le_left _ _) hlow
    · exact Nat.le_trans hhigh (Nat.le_max_left _ _)
  · rw [List.mem_singleton] at new
    subst new
    cases span : r.span with
    | none => exact ⟨_, _, by rw [register, span, widen], Nat.le_refl _, Nat.le_refl _⟩
    | some ends =>
      exact ⟨_, _, by rw [register, span, widen], Nat.min_le_right _ _, Nat.le_max_right _ _⟩

theorem spans_foldl_register {r : Registry} (hr : r.Spans) (specs : List HookSpec) :
    (specs.foldl register r).Spans := by
  induction specs generalizing r with
  | nil => exact hr
  | cons s specs ih => exact ih (spans_register hr s)

theorem hooks_foldl_register (r : Registry) (specs : List HookSpec) :
    (specs.foldl register r).hooks = r.hooks ++ specs.map Hook.ofSpec := by
  induction specs generalizing r with
  | nil => simp
  | cons s specs ih => simp [ih, register]

/-- The registry was made from this list, and has at most changed what its hooks have seen. -/
structure Serves (r : Registry) (specs : List HookSpec) : Prop where
  admissible : ∀ s ∈ specs, s.Admissible
  nodup : (specs.map HookSpec.key).Nodup
  hooks_eq : r.hooks.map Hook.blank = specs.map fun s => (Hook.ofSpec s).blank
  spans : r.Spans

theorem serves_of_ofSpecs {specs : List HookSpec} {r : Registry} (h : ofSpecs specs = .ok r) :
    r.Serves specs := by
  obtain ⟨admissible, nodup, rfl⟩ := ofSpecs_eq_ok_iff.1 h
  have blank : empty.Spans := fun h hh => by cases hh
  refine ⟨admissible, nodup, ?_, spans_foldl_register blank specs⟩
  rw [hooks_foldl_register]
  simp [empty]

namespace Serves

variable {r : Registry} {specs : List HookSpec}

/-- A change of what single hooks have seen is no change of the list. -/
theorem map (hr : r.Serves specs) {f : Hook → Hook} (hf : ∀ h, (f h).blank = h.blank) :
    Serves { r with hooks := r.hooks.map f } specs := by
  refine ⟨hr.admissible, hr.nodup, ?_, ?_⟩
  · rw [← hr.hooks_eq, List.map_map]
    exact List.map_congr_left fun h _ => hf h
  · intro h' hh'
    obtain ⟨h, hh, rfl⟩ := List.mem_map.1 hh'
    obtain ⟨low, high, span, hlow, hhigh⟩ := hr.spans h hh
    obtain ⟨-, start, length, -, -⟩ := Hook.blank_eq_iff.1 (hf h)
    refine ⟨low, high, span, ?_, ?_⟩
    · rwa [start]
    · rwa [Hook.stop, start, length]

theorem step (hr : r.Serves specs) {f : Hook → Hook × Option HookEvent}
    (hf : ∀ h, (f h).1.blank = h.blank) : (r.step f).1.Serves specs := by
  have same : (r.step f).1 = { r with hooks := r.hooks.map fun h => (f h).1 } := by
    rw [← hooks_step]
    rfl
  rw [same]
  exact hr.map hf

/-- Every hook comes from a spec. -/
theorem exists_spec (hr : r.Serves specs) {h : Hook} (hh : h ∈ r.hooks) :
    ∃ s ∈ specs, h.blank = (Hook.ofSpec s).blank := by
  have seen : h.blank ∈ r.hooks.map Hook.blank := List.mem_map_of_mem hh
  rw [hr.hooks_eq] at seen
  obtain ⟨s, hs, same⟩ := List.mem_map.1 seen
  exact ⟨s, hs, same.symm⟩

theorem sited (hr : r.Serves specs) {h : Hook} (hh : h ∈ r.hooks) : ∃ range, h.Sited range := by
  obtain ⟨s, hs, same⟩ := hr.exists_spec hh
  obtain ⟨range, placed⟩ := Hook.sited_ofSpec (hr.admissible s hs)
  exact ⟨range, placed.of_blank same⟩

theorem keys_eq (hr : r.Serves specs) : r.hooks.map Hook.key = specs.map HookSpec.key := by
  have keys : (r.hooks.map Hook.blank).map Hook.key = specs.map HookSpec.key := by
    rw [hr.hooks_eq, List.map_map]
    rfl
  rwa [List.map_map] at keys

theorem nodup_keys (hr : r.Serves specs) : (r.hooks.map Hook.key).Nodup := by
  rw [hr.keys_eq]
  exact hr.nodup

/-- A store that touches a hook is not passed over. -/
theorem mayOverlap (hr : r.Serves specs) {h : Hook} (hh : h ∈ r.hooks) {addr : Address}
    {width : Nat} (touched : h.overlaps addr width = true) : r.mayOverlap addr width = true := by
  obtain ⟨low, high, span, hlow, hhigh⟩ := hr.spans h hh
  simp only [Hook.overlaps, Bool.and_eq_true, decide_eq_true_eq] at touched
  simp only [Registry.mayOverlap, span, Bool.and_eq_true, decide_eq_true_eq]
  omega

/-- So the span only saves time: a store is evaluated hook by hook. -/
theorem evaluate_eq (hr : r.Serves specs) (addr : Address) (width : Nat) (m : Memory) :
    r.evaluate addr width m = r.step fun h => h.onStore (canonical addr) width m := by
  unfold evaluate
  split
  · rfl
  · next passed =>
    have missed (h : Hook) (hh : h ∈ r.hooks) : h.onStore (canonical addr) width m = (h, none) := by
      unfold Hook.onStore
      rw [if_neg fun touched => passed (hr.mayOverlap hh touched)]
    have same : r.hooks.map (fun h => h.onStore (canonical addr) width m) =
        r.hooks.map fun h => (h, none) := List.map_congr_left missed
    unfold Registry.step
    rw [same]
    simp [Function.comp_def]

end Serves

/-! ### One hook among the others -/

theorem get?_eq_some_iff {r : Registry} (nodup : (r.hooks.map Hook.key).Nodup) {k : UInt8}
    {h : Hook} : r.get? k = some h ↔ h ∈ r.hooks ∧ h.key = k := by
  unfold get?
  constructor
  · intro found
    exact ⟨List.mem_of_find?_eq_some found, by simpa using List.find?_some found⟩
  · rintro ⟨hh, rfl⟩
    cases found : r.hooks.find? fun h' => h'.key == h.key with
    | none =>
      have := List.find?_eq_none.1 found h hh
      simp at this
    | some h' =>
      have key : h'.key = h.key := by simpa using List.find?_some found
      rw [List.inj_on_of_nodup_map nodup (List.mem_of_find?_eq_some found) hh key]

/-- A step moves the hook with a key as it moves that hook alone. -/
theorem get?_step {r : Registry} {f : Hook → Hook × Option HookEvent}
    (hf : ∀ h, (f h).1.key = h.key) (k : UInt8) :
    (r.step f).1.get? k = (r.get? k).map fun h => (f h).1 := by
  unfold get?
  rw [hooks_step, List.find?_map]
  simp only [Function.comp_def, hf]

/-- The events of a step that carry a key are those of the hook with that key. -/
theorem filter_events_step {r : Registry} (nodup : (r.hooks.map Hook.key).Nodup)
    {f : Hook → Hook × Option HookEvent} (hf : ∀ h e, (f h).2 = some e → e.key = h.key)
    (k : UInt8) :
    (r.step f).2.filter (fun e => e.key = k) =
      ((r.get? k).bind fun h => (f h).2).toList := by
  obtain ⟨hooks, span⟩ := r
  simp only [Registry.step, get?, List.filterMap_map] at nodup ⊢
  induction hooks with
  | nil => rfl
  | cons h hooks ih =>
    obtain ⟨new, nodup⟩ := List.nodup_cons.1 nodup
    specialize ih nodup
    by_cases key : h.key = k
    · subst key
      have others : hooks.find? (fun h' => h'.key == h.key) = none := by
        rw [List.find?_eq_none]
        intro h' hh' same
        exact new (by rw [← eq_of_beq same]; exact List.mem_map_of_mem hh')
      rw [others] at ih
      cases emitted : (f h).2 with
      | none => simpa [List.filterMap_cons, emitted] using ih
      | some e => simpa [List.filterMap_cons, emitted, hf h e emitted] using ih
    · have skip : (h.key == k) = false := by simpa using key
      cases emitted : (f h).2 with
      | none => simpa [List.filterMap_cons, emitted, List.find?_cons, skip] using ih
      | some e =>
        have other : e.key ≠ k := by rw [hf h e emitted]; exact key
        simpa [List.filterMap_cons, emitted, List.find?_cons, skip, other] using ih

end Registry

end ConsoleBus
