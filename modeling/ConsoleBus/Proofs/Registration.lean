import ConsoleBus.Proofs.AddressMap
import ConsoleBus.Watch.Registry

/-!
Which hook lists are accepted. A spec is looked at by itself first (`HookSpec.Admissible`); a list
of admissible specs is accepted when the keys differ, and the registry then holds one hook for each
spec (`Registry.ofSpecs_eq_ok_iff`).
-/

namespace ConsoleBus

namespace HookSpec

/-! ### A spec by itself -/

/-- The canonical range starts in the visible part of a region and ends in the region. -/
def Backed (s : HookSpec) : Prop :=
  ∃ r : Region, r.home ≤ (canonical s.start).toNat ∧
    (canonical s.start).toNat < r.home + r.visibleSize ∧
    (canonical s.start).toNat + s.length.toNat ≤ r.home + r.size

/-- A spec that an otherwise empty registry accepts. -/
structure Admissible (s : HookSpec) : Prop where
  key_le : s.key ≤ maxHookKey
  length_ne : s.length ≠ 0
  backed : s.Backed

theorem backed_iff {s : HookSpec} : s.Backed ↔
    ∃ range, PageTable.powerOnRead.resolveRange (canonical s.start) s.length.toNat = .ok range := by
  constructor
  · rintro ⟨r, low, seen, high⟩
    refine ⟨⟨r, (canonical s.start).toNat - r.home, s.length.toNat⟩,
      PageTable.resolveRange_eq_ok_iff.2 ⟨PageTable.locate_canonical_iff.2 ⟨?_, ?_⟩, ?_, rfl⟩⟩ <;>
      simp only <;> omega
  · rintro ⟨range, hrange⟩
    obtain ⟨located, fits, hlen⟩ := PageTable.resolveRange_eq_ok_iff.1 hrange
    obtain ⟨home, seen⟩ := PageTable.locate_canonical_iff.1 located
    simp only at home seen
    exact ⟨range.region, by omega, by omega, by omega⟩

/-- A range that has memory behind it ends within the address space. -/
theorem Backed.end_lt {s : HookSpec} (h : s.Backed) :
    (canonical s.start).toNat + s.length.toNat < UInt32.size ∧
      s.start.toNat + s.length.toNat < UInt32.size := by
  obtain ⟨r, low, -, high⟩ := h
  have hs : s.start.toNat < 4294967296 := s.start.toNat_lt
  have hfold := canonical_cases s.start
  cases r <;> simp only [Region.home, Region.size, UInt32.size] at low high ⊢ <;> omega

theorem check_eq_ok_iff {s : HookSpec} : s.check = .ok () ↔
    s.key ≤ maxHookKey ∧ s.length ≠ 0 ∧
      (canonical s.start).toNat + s.length.toNat < UInt32.size ∧
      s.start.toNat + s.length.toNat < UInt32.size := by
  unfold check
  rw [← UInt8.not_lt]
  by_cases hk : maxHookKey < s.key
  · simp [hk]
  · by_cases hl : s.length = 0
    · simp [hk, hl]
    · by_cases he : (canonical s.start).toNat + s.length.toNat < UInt32.size ∧
          s.start.toNat + s.length.toNat < UInt32.size
      · simp [hk, hl, he]
      · simp [hk, hl, he]

end HookSpec

namespace Registry

/-! ### A whole list -/

/-- The registry with the hook of one more spec, whether or not that may be watched. -/
def register (r : Registry) (s : HookSpec) : Registry where
  hooks := r.hooks ++ [Hook.ofSpec s]
  span := some (widen r.span (Hook.ofSpec s))

theorem add_eq_ok_iff {r r' : Registry} {s : HookSpec} : r.add s = .ok r' ↔
    s.Admissible ∧ s.key ∉ r.hooks.map Hook.key ∧ r' = r.register s := by
  have absent : (r.get? s.key).isSome = true ↔ s.key ∈ r.hooks.map Hook.key := by
    simp only [get?, List.find?_isSome, beq_iff_eq, List.mem_map]
  unfold add
  cases hc : s.check with
  | error e =>
    have refused : ¬ s.Admissible := fun h => by
      rw [HookSpec.check_eq_ok_iff.2 ⟨h.key_le, h.length_ne, h.backed.end_lt⟩] at hc
      cases hc
    simp [refused]
  | ok _ =>
    obtain ⟨hk, hl, -⟩ := HookSpec.check_eq_ok_iff.1 hc
    by_cases taken : s.key ∈ r.hooks.map Hook.key
    · simp [absent.2 taken, taken]
    · have free : ¬ (r.get? s.key).isSome = true := fun h => taken (absent.1 h)
      simp only [free, if_false, Bool.false_eq_true]
      cases hr : PageTable.powerOnRead.resolveRange (Hook.ofSpec s).start
          (Hook.ofSpec s).length.toNat with
      | error e =>
        have bare : ¬ s.Admissible := fun h => by
          obtain ⟨range, found⟩ := HookSpec.backed_iff.1 h.backed
          simp only [Hook.ofSpec] at hr
          rw [hr] at found
          cases found
        simp [bare]
      | ok range =>
        have good : s.Admissible := ⟨hk, hl, HookSpec.backed_iff.2 ⟨range, hr⟩⟩
        simp [good, taken, register, eq_comm]

theorem addAll_eq_ok_iff {specs : List HookSpec} {r r' : Registry} : r.addAll specs = .ok r' ↔
    (∀ s ∈ specs, s.Admissible) ∧ (∀ s ∈ specs, s.key ∉ r.hooks.map Hook.key) ∧
      (specs.map HookSpec.key).Nodup ∧ r' = specs.foldl register r := by
  induction specs generalizing r with
  | nil => simp [addAll, eq_comm]
  | cons s specs ih =>
    have keys : (r.register s).hooks.map Hook.key = r.hooks.map Hook.key ++ [s.key] := by
      simp [register, Hook.ofSpec]
    unfold addAll
    cases ha : r.add s with
    | error e =>
      simp only [reduceCtorEq, false_iff]
      rintro ⟨good, free, -⟩
      have := add_eq_ok_iff.2 ⟨good s (by simp), free s (by simp), rfl⟩
      rw [ha] at this
      cases this
    | ok r₁ =>
      obtain ⟨good, free, rfl⟩ := add_eq_ok_iff.1 ha
      simp only [ih, keys, List.forall_mem_cons, List.map_cons, List.nodup_cons, List.foldl_cons,
        List.mem_append, List.mem_singleton, not_or, List.mem_map, good, true_and]
      constructor
      · rintro ⟨rest, apart, nodup, rfl⟩
        refine ⟨rest, ⟨by simpa using free, fun s' hs' => (apart s' hs').1⟩, ⟨?_, nodup⟩, rfl⟩
        rintro ⟨s', hs', same⟩
        exact (apart s' hs').2 same
      · rintro ⟨rest, ⟨-, apart⟩, ⟨new, nodup⟩, rfl⟩
        exact ⟨rest, fun s' hs' => ⟨apart s' hs', fun same => new ⟨s', hs', same⟩⟩, nodup, rfl⟩

/-- A list is accepted when each spec is admissible and the keys differ. -/
theorem ofSpecs_eq_ok_iff {specs : List HookSpec} {r : Registry} : ofSpecs specs = .ok r ↔
    (∀ s ∈ specs, s.Admissible) ∧ (specs.map HookSpec.key).Nodup ∧
      r = specs.foldl register empty := by
  rw [ofSpecs, addAll_eq_ok_iff]
  simp [empty]

end Registry

end ConsoleBus
