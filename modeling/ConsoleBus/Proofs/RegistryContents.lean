import ConsoleBus.Proofs.Roster
import ConsoleBus.Watch.KeyTable
import Mathlib.Order.MinMax

/-!
What a registry holds once its hook list is accepted: one hook for each spec, in the order of the
list; under each key the hook of the one spec with that key; and a span whose ends are the lowest
start and the highest end among the hooks (`Registry.Attained`). So the quick test by the span
passes over a store exactly where the store lies before all hooks, behind all hooks, or where there
is no hook (`Registry.contents_of_ofSpecs`). The one pass that keeps positions and ends beside the
hooks comes to the same, hook by hook (`KeyTable.Holds`).
-/

namespace ConsoleBus

/-- An address that is canonical already stays as it is. -/
theorem canonical_canonical (addr : Address) : canonical (canonical addr) = canonical addr := by
  apply UInt32.toNat.inj
  have outer := canonical_cases (canonical addr)
  have inner := canonical_cases addr
  omega

namespace Registry

variable {r : Registry} {specs : List HookSpec}

/-! ### The span -/

/-- Each end of the span is an end of some hook. -/
def Attained (r : Registry) : Prop :=
  ∀ low high, r.span = some (low, high) →
    (∃ h ∈ r.hooks, h.start.toNat = low) ∧ ∃ h ∈ r.hooks, h.stop = high

theorem attained_register (hr : r.Attained) (s : HookSpec) : (r.register s).Attained := by
  intro low high span
  have added : Hook.ofSpec s ∈ (r.register s).hooks := List.mem_append_right _ List.mem_cons_self
  have kept (h : Hook) (hh : h ∈ r.hooks) : h ∈ (r.register s).hooks :=
    List.mem_append_left _ hh
  cases before : r.span with
  | none =>
    simp only [register, before, widen] at span
    cases span
    exact ⟨⟨_, added, rfl⟩, ⟨_, added, rfl⟩⟩
  | some ends =>
    obtain ⟨low', high'⟩ := ends
    simp only [register, before, widen] at span
    cases span
    obtain ⟨⟨lowest, hlow, start⟩, ⟨highest, hhigh, stop⟩⟩ := hr low' high' before
    constructor
    · rcases min_choice low' (Hook.ofSpec s).start.toNat with old | new
      · exact ⟨lowest, kept _ hlow, start.trans old.symm⟩
      · exact ⟨_, added, new.symm⟩
    · rcases max_choice high' (Hook.ofSpec s).stop with old | new
      · exact ⟨highest, kept _ hhigh, stop.trans old.symm⟩
      · exact ⟨_, added, new.symm⟩

theorem attained_foldl_register (hr : r.Attained) (specs : List HookSpec) :
    (specs.foldl register r).Attained := by
  induction specs generalizing r with
  | nil => exact hr
  | cons s specs ih => exact ih (attained_register hr s)

/-- A span that holds every range and whose ends are attained tells whether the store begins before
the end of some hook and ends behind the start of some hook. -/
theorem mayOverlap_iff (spans : r.Spans) (attained : r.Attained) (addr : Address) (width : Nat) :
    r.mayOverlap addr width = true ↔
      (∃ h ∈ r.hooks, addr.toNat < h.stop) ∧
        ∃ h ∈ r.hooks, h.start.toNat < addr.toNat + width := by
  constructor
  · intro passed
    cases span : r.span with
    | none => simp [mayOverlap, span] at passed
    | some ends =>
      obtain ⟨low, high⟩ := ends
      simp only [mayOverlap, span, Bool.and_eq_true, decide_eq_true_eq] at passed
      obtain ⟨⟨lowest, hlow, start⟩, ⟨highest, hhigh, stop⟩⟩ := attained low high span
      exact ⟨⟨highest, hhigh, by omega⟩, ⟨lowest, hlow, by omega⟩⟩
  · rintro ⟨⟨before, hbefore, first⟩, ⟨behind, hbehind, last⟩⟩
    obtain ⟨low, high, span, -, hhigh⟩ := spans before hbefore
    obtain ⟨low', high', span', hlow, -⟩ := spans behind hbehind
    obtain ⟨rfl, rfl⟩ : low' = low ∧ high' = high := by simpa [span] using span'.symm
    simp only [mayOverlap, span, Bool.and_eq_true, decide_eq_true_eq]
    omega

/-! ### Keys -/

/-- Where the keys differ, one spec at most has a key, and a search finds it. -/
theorem filter_key_eq_find? (nodup : (specs.map HookSpec.key).Nodup) (k : UInt8) :
    specs.filter (fun s => s.key = k) = (specs.find? fun s => s.key = k).toList := by
  induction specs with
  | nil => rfl
  | cons s specs ih =>
    obtain ⟨new, nodup⟩ := List.nodup_cons.1 nodup
    by_cases key : s.key = k
    · have others : specs.filter (fun s => s.key = k) = [] := by
        refine List.filter_eq_nil_iff.2 fun s' hs' same => new ?_
        rw [key, ← of_decide_eq_true same]
        exact List.mem_map_of_mem hs'
      simp [key, others]
    · simpa [key] using ih nodup

/-- The hook under a key is made from the spec with that key. -/
theorem get?_of_hooks_eq (hooks : r.hooks = specs.map Hook.ofSpec) (k : UInt8) :
    r.get? k = (specs.find? fun s => s.key = k).map Hook.ofSpec := by
  rw [get?, hooks, List.find?_map]
  rfl

end Registry

/-! ### One pass -/

namespace KeyTable

variable {t : KeyTable} {r : Registry}

/-- The pass has come to the registry: it has the same hooks, the position of each under its key, and
the same span, if there is a hook to have one. -/
structure Holds (t : KeyTable) (r : Registry) : Prop where
  hooks : t.hooks = r.hooks
  size : t.positions.length = maxHookKey.toNat + 1
  position : ∀ k, t.position? k = r.hooks.findIdx? fun h => h.key == k
  span : (r.hooks = [] ∧ r.span = none ∧ t.low = 0xffffffffffffffff ∧ t.high = 0) ∨
    (r.hooks ≠ [] ∧ r.span = some (t.low, t.high))

theorem holds_empty : Holds {} Registry.empty := by
  refine ⟨rfl, List.length_replicate, fun k => ?_, .inl ⟨rfl, rfl, rfl, rfl⟩⟩
  rw [position?, List.getElem?_replicate]
  split <;> rfl

/-- Where a key is found, there is its hook. -/
theorem Holds.get? (holds : t.Holds r) (k : UInt8) : t.get? k = r.get? k := by
  rw [KeyTable.get?, Registry.get?, holds.position, holds.hooks,
    List.find?_eq_bind_findIdx?_getElem?]

theorem Holds.mayOverlap (holds : t.Holds r) (addr : Address) (width : Nat) :
    KeyTable.mayOverlap { t with low := if t.hooks.isEmpty then 0 else t.low } addr width =
      r.mayOverlap addr width := by
  rcases holds.span with ⟨-, span, -, high⟩ | ⟨some, span⟩
  · simp [KeyTable.mayOverlap, Registry.mayOverlap, span, high]
  · simp [KeyTable.mayOverlap, Registry.mayOverlap, span, holds.hooks, some]

/-- Entering a hook under a new key keeps the rest. -/
theorem Holds.register (holds : t.Holds r) {s : HookSpec} (small : s.key ≤ maxHookKey)
    (free : t.position? s.key = none) :
    Holds { hooks := t.hooks ++ [Hook.ofSpec s]
            positions := t.positions.set s.key.toNat (some t.hooks.length)
            low := min t.low (Hook.ofSpec s).start.toNat
            high := max t.high (Hook.ofSpec s).stop } (r.register s) := by
  have room : s.key.toNat < t.positions.length := holds.size ▸ Nat.lt_succ_of_le small
  refine ⟨by rw [holds.hooks]; rfl, by rw [List.length_set, holds.size], fun k => ?_, .inr ⟨?_, ?_⟩⟩
  · -- the keys
    simp only [position?, Registry.register, List.findIdx?_append, ← holds.position]
    by_cases same : s.key = k
    · subst same
      rw [List.getElem?_set_self room, show t.positions[s.key.toNat]?.join = none from free,
        holds.hooks]
      simp [Hook.ofSpec]
    · rw [List.getElem?_set_ne (same ∘ UInt8.toNat.inj)]
      simp [Hook.ofSpec, same]
  · exact List.append_ne_nil_of_right_ne_nil _ (List.cons_ne_nil _ _)
  · -- the span: no address is behind the first lower end
    rcases holds.span with ⟨-, span, low, high⟩ | ⟨-, span⟩
    · have start := (Hook.ofSpec s).start.toNat_lt
      rw [Registry.register, span, low, high, Nat.zero_max, Nat.min_eq_right (by omega)]
      rfl
    · rw [Registry.register, span]
      rfl

/-- One more hook: both refuse it for the same reason, or both take it. -/
theorem Holds.add (holds : t.Holds r) (s : HookSpec) :
    (∃ e, t.add s = .error e ∧ r.add s = .error e) ∨
      ∃ t' r', t.add s = .ok t' ∧ r.add s = .ok r' ∧ t'.Holds r' := by
  have taken : (r.get? s.key).isSome = (t.position? s.key).isSome := by
    rw [holds.position, Registry.get?, List.findIdx?_isSome, List.isSome_find?]
  unfold KeyTable.add Registry.add
  rw [taken]
  cases checked : s.check with
  | error e => exact .inl ⟨e, rfl, rfl⟩
  | ok _ =>
    cases free : t.position? s.key with
    | some i => exact .inl ⟨_, rfl, rfl⟩
    | none =>
      simp only [Option.isSome_none, Bool.false_eq_true, if_false]
      cases PageTable.powerOnRead.resolveRange (Hook.ofSpec s).start
          (Hook.ofSpec s).length.toNat with
      | error cause => exact .inl ⟨_, rfl, rfl⟩
      | ok range =>
        exact .inr ⟨_, _, rfl, rfl, holds.register (HookSpec.check_eq_ok_iff.1 checked).1 free⟩

theorem Holds.addAll (holds : t.Holds r) (specs : List HookSpec) :
    (∃ e, t.addAll specs = .error e ∧ r.addAll specs = .error e) ∨
      ∃ t' r', t.addAll specs = .ok t' ∧ r.addAll specs = .ok r' ∧ t'.Holds r' := by
  induction specs generalizing t r with
  | nil => exact .inr ⟨t, r, rfl, rfl, holds⟩
  | cons s specs ih =>
    unfold KeyTable.addAll Registry.addAll
    rcases holds.add s with ⟨e, refused, refused'⟩ | ⟨t', r', taken, taken', later⟩
    · rw [refused, refused']
      exact .inl ⟨e, rfl, rfl⟩
    · rw [taken, taken']
      exact ih later

/-- The pass accepts the lists that a registry is made for, and refuses the others for the same
reasons. -/
theorem ofSpecs_spec (specs : List HookSpec) :
    (∃ e, ofSpecs specs = .error e ∧ Registry.ofSpecs specs = .error e) ∨
      ∃ t r, ofSpecs specs = .ok t ∧ Registry.ofSpecs specs = .ok r ∧ t.hooks = r.hooks ∧
        (∀ k, t.get? k = r.get? k) ∧
        ∀ addr width, t.mayOverlap addr width = r.mayOverlap addr width := by
  unfold ofSpecs Registry.ofSpecs
  rcases holds_empty.addAll specs with ⟨e, refused, refused'⟩ | ⟨t, r, taken, taken', holds⟩
  · rw [refused]
    exact .inl ⟨e, rfl, refused'⟩
  · rw [taken]
    exact .inr ⟨_, r, rfl, taken', holds.hooks, holds.get?, holds.mayOverlap⟩

end KeyTable

namespace Registry

variable {r : Registry} {specs : List HookSpec}

/-! ### Accepted lists -/

/-- What the registry for an accepted list holds. The one pass over the list comes to it too, by its
positions and its ends. There is one hook for each spec, in their order, and each starts at a
canonical address. At most one spec has a given key, and the hook that is made from it is the one
that the key leads to; no key beyond the largest leads to any. The span lets a store pass exactly
where it begins before the end of some hook and ends behind the start of some hook; so every store
that overlaps a hook passes, and none does where no hook is registered. -/
theorem contents_of_ofSpecs (made : ofSpecs specs = .ok r) :
    (∃ t, KeyTable.ofSpecs specs = .ok t ∧ t.hooks = r.hooks ∧ (∀ k, t.get? k = r.get? k) ∧
        ∀ addr width, t.mayOverlap addr width = r.mayOverlap addr width) ∧
      r.hooks = specs.map Hook.ofSpec ∧
      (∀ h ∈ r.hooks, canonical h.start = h.start) ∧
      (∀ k, ∃ found : Option HookSpec, specs.filter (fun s => s.key = k) = found.toList ∧
        r.get? k = found.map Hook.ofSpec) ∧
      (∀ k, maxHookKey < k → r.get? k = none) ∧
      (∀ addr width, r.mayOverlap addr width = true ↔
        (∃ h ∈ r.hooks, addr.toNat < h.stop) ∧
          ∃ h ∈ r.hooks, h.start.toNat < addr.toNat + width) ∧
      (∀ addr width, (∃ h ∈ r.hooks, h.overlaps addr width = true) →
        r.mayOverlap addr width = true) ∧
      (specs = [] → ∀ addr width, r.mayOverlap addr width = false) := by
  have serves := serves_of_ofSpecs made
  obtain ⟨admissible, nodup, built⟩ := ofSpecs_eq_ok_iff.1 made
  have hooks : r.hooks = specs.map Hook.ofSpec := by
    rw [built, hooks_foldl_register]
    rfl
  have unspanned : empty.Attained := fun low high span => by cases span
  have attained : r.Attained := built ▸ attained_foldl_register unspanned specs
  refine ⟨?_, hooks, ?_, ?_, ?_, mayOverlap_iff serves.spans attained, ?_, ?_⟩
  · -- the pass
    rcases KeyTable.ofSpecs_spec specs with ⟨e, -, refused⟩ | ⟨t, r', passed, made', same⟩
    · cases made.symm.trans refused
    · cases made.symm.trans made'
      exact ⟨t, passed, same⟩
  · -- the starts
    rw [hooks]
    intro h hh
    obtain ⟨s, -, rfl⟩ := List.mem_map.1 hh
    exact canonical_canonical s.start
  · -- the keys
    exact fun k => ⟨_, filter_key_eq_find? nodup k, get?_of_hooks_eq hooks k⟩
  · intro k large
    rw [get?_of_hooks_eq hooks, Option.map_eq_none_iff, List.find?_eq_none]
    intro s hs same
    have small := (admissible s hs).key_le
    rw [of_decide_eq_true same] at small
    exact UInt8.not_lt.2 small large
  · -- the span
    rintro addr width ⟨h, hh, touched⟩
    exact serves.mayOverlap hh touched
  · intro blank addr width
    subst blank
    rw [built]
    rfl

/-- A hook on RAM through an uncached mirror and one on the scratchpad: a store to the ROM behind
both is passed over, and one between them is not. -/
theorem mirrored_pair_contents :
    let low : HookSpec := { key := 5, start := 0xa0600100, length := 4 }
    let high : HookSpec := { key := 127, start := 0x9f800010, length := 8, silenced := true }
    let r := (empty.register low).register high
    ofSpecs [low, high] = .ok r ∧ r.get? 127 = some (Hook.ofSpec high) ∧ r.get? 6 = none ∧
      r.mayOverlap 0x1fc00000 4 = false ∧ r.mayOverlap 0x1f000000 1 = true := by
  intro low high r
  have made : ofSpecs [low, high] = .ok r := by
    refine ofSpecs_eq_ok_iff.2 ⟨fun s hs => ?_, by decide, rfl⟩
    simp only [List.mem_cons, List.not_mem_nil, or_false] at hs
    rcases hs with rfl | rfl
    · exact ⟨by decide, by decide, .ram, by decide, by decide, by decide⟩
    · exact ⟨by decide, by decide, .hardware, by decide, by decide, by decide⟩
  obtain ⟨-, hooks, -, keys, -, span, -⟩ := contents_of_ofSpecs made
  have held : r.get? 127 = some (Hook.ofSpec high) := by
    obtain ⟨found, listed, got⟩ := keys 127
    have one : [high] = found.toList := listed
    cases found with
    | none => cases one
    | some s =>
      cases one
      exact got
  have unused : r.get? 6 = none := by
    obtain ⟨found, listed, got⟩ := keys 6
    have nothing : [] = found.toList := listed
    cases found with
    | none => exact got
    | some s => cases nothing
  refine ⟨made, held, unused, ?_, ?_⟩
  · refine Bool.eq_false_iff.2 fun passed => ?_
    obtain ⟨⟨h, hh, before⟩, -⟩ := (span _ _).1 passed
    rw [hooks] at hh
    revert h
    decide
  · exact (span _ _).2 ⟨⟨Hook.ofSpec high, by rw [hooks]; simp, by decide⟩,
      ⟨Hook.ofSpec low, by rw [hooks]; simp, by decide⟩⟩

end Registry

end ConsoleBus
