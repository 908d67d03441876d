import ConsoleBus.Proofs.CacheIsolation

/-!
What a store outside the RAM windows notices of the isolation. Where the scratchpad, a register or a
page of the power-on table serves the store, it is served alike under either state of the switch
(`Bus.store_under_of_served`). Where nothing serves it the two states differ: the bus cannot tell
such an address from blank RAM, so an isolated one flushes a cache line and counts no miss
(`Bus.store_under_of_unserved`). These are all the differences there are (`Bus.store_under_iff`).
-/

namespace ConsoleBus

open PageTable

/-- Whether an effect voids compiled code. -/
def Effect.voids : Effect → Bool
  | .invalidated .. | .invalidatedAll => true
  | _ => false

/-- Neither the scratchpad nor a register nor a page of the power-on table takes stores to the
address. -/
def Unserved (addr : Address) : Prop := classify addr = .table ∧ powerOnWrite.resolve addr = none

instance (addr : Address) : Decidable (Unserved addr) :=
  inferInstanceAs (Decidable (_ ∧ _))

variable {s t : Isolation} {addr : Address}

/-- Outside the RAM windows the write table is the one of power-on. -/
theorem Isolation.Coherent.resolve_of_outside (h : s.Coherent) (outside : ¬ InRamWindow addr) :
    s.table.resolve addr = powerOnWrite.resolve addr := by
  rw [h.resolve_eq]
  exact if_neg fun both => outside both.2

namespace Bus

/-- The bus with another state of the isolation switch. -/
def under (b : Bus) (s : Isolation) : Bus := { b with isolation := s }

/-- A store that something serves outside the RAM windows does not depend on the isolation. -/
theorem store_under_of_served (b : Bus) (h : s.Coherent) (outside : ¬ InRamWindow addr)
    (served : ¬ Unserved addr) (w : Width) (value : UInt32) :
    (b.under s).store addr w value =
      (((b.under .powerOn).store addr w value).1.under s,
        ((b.under .powerOn).store addr w value).2) := by
  unfold store
  cases hc : classify addr with
  | hardwareRegister => rfl
  | scratchpad offset =>
    simp only
    split <;> rfl
  | table =>
    have same : (b.under s).isolation.table.resolve addr = powerOnWrite.resolve addr :=
      h.resolve_of_outside outside
    have same' : (b.under .powerOn).isolation.table.resolve addr = powerOnWrite.resolve addr := rfl
    simp only [same, same']
    cases hr : powerOnWrite.resolve addr with
    | none => exact absurd ⟨hc, hr⟩ served
    | some loc =>
      simp only
      split <;> rfl

/-- A store that nothing serves is taken for a flush of a cache line while the cache is isolated, and
counted as a miss otherwise. -/
theorem store_under_of_unserved (b : Bus) (h : s.Coherent) (outside : ¬ InRamWindow addr)
    (other : addr ≠ cacheControl) (unserved : Unserved addr) (w : Width) (value : UInt32) :
    (b.under s).store addr w value =
      if s.active then (b.under s, [.invalidated addr 1]) else ((b.under s).missWrite, []) := by
  have blank : (b.under s).isolation.table.resolve addr = none :=
    (h.resolve_of_outside outside).trans unserved.2
  simp only [store, unserved.1, blank, storeUnmapped]
  exact if_neg fun control => other control.1

/-- Isolation shows outside the RAM windows only where nothing serves a store. For two states of a bus
that differ in the isolation alone, a store to an address in no RAM window other than the
cache-control register leaves the same memory and calls the observers and the register handler
alike; it voids the same code and counts the same misses just where something serves it. -/
theorem store_under_iff (b : Bus) (hs : s.Coherent) (ht : t.Coherent) (shut : s.active = true)
    (opened : t.active = false) (outside : ¬ InRamWindow addr) (other : addr ≠ cacheControl)
    (w : Width) (value : UInt32) :
    ((b.under s).store addr w value).1.memory = ((b.under t).store addr w value).1.memory ∧
      ((b.under s).store addr w value).2.filter (fun e => !e.voids) =
        ((b.under t).store addr w value).2.filter (fun e => !e.voids) ∧
      (((b.under s).store addr w value).2 = ((b.under t).store addr w value).2 ∧
          ((b.under s).store addr w value).1.stats = ((b.under t).store addr w value).1.stats ↔
        ¬ Unserved addr) := by
  by_cases unserved : Unserved addr
  · rw [store_under_of_unserved b hs outside other unserved,
      store_under_of_unserved b ht outside other unserved, shut, opened]
    refine ⟨rfl, rfl, ?_⟩
    constructor
    · rintro ⟨same, -⟩
      cases same
    · intro served
      exact absurd unserved served
  · rw [store_under_of_served b hs outside unserved, store_under_of_served b ht outside unserved]
    exact ⟨rfl, rfl, fun _ => unserved, fun _ => ⟨rfl, rfl⟩⟩

/-- A half-word stored to the parallel port does the same while the cache is isolated. -/
theorem parallel_store_under :
    let s : Isolation := (Isolation.powerOn.apply 0x800).1
    let b : Bus := {}
    s.Coherent ∧ Isolation.powerOn.Coherent ∧ s.active = true ∧ Isolation.powerOn.active = false ∧
      ¬ InRamWindow 0x1f000004 ∧ (0x1f000004 : Address) ≠ cacheControl ∧ ¬ Unserved 0x1f000004 ∧
      ((b.under s).store 0x1f000004 .half 7).2 = ((b.under .powerOn).store 0x1f000004 .half 7).2 ∧
      ((b.under s).store 0x1f000004 .half 7).1.stats =
        ((b.under .powerOn).store 0x1f000004 .half 7).1.stats := by
  intro s b
  have hs : s.Coherent := Isolation.coherent_apply Isolation.coherent_powerOn _
  have outside : ¬ InRamWindow 0x1f000004 := by decide
  have other : (0x1f000004 : Address) ≠ cacheControl := by decide
  have served : ¬ Unserved 0x1f000004 := by decide
  exact ⟨hs, Isolation.coherent_powerOn, by decide, by decide, outside, other, served,
    (store_under_iff b hs Isolation.coherent_powerOn (by decide) (by decide) outside other .half
      7).2.2.2 served⟩

/-- A store to the ROM is counted as a miss and voids no code, and while the cache is isolated it is
the other way round. -/
theorem isolated_rom_store_uncounted :
    let s : Isolation := (Isolation.powerOn.apply 0x800).1
    let b : Bus := {}
    ¬ InRamWindow 0xbfc00000 ∧ (0xbfc00000 : Address) ≠ cacheControl ∧ s.active = true ∧
      ((b.under .powerOn).store 0xbfc00000 .word 0).1.stats.unmappedWrites = 1 ∧
      ((b.under .powerOn).store 0xbfc00000 .word 0).2 = [] ∧
      ((b.under s).store 0xbfc00000 .word 0).1.stats.unmappedWrites = 0 ∧
      ((b.under s).store 0xbfc00000 .word 0).2 = [.invalidated 0xbfc00000 1] := by
  exact ⟨by decide, by decide, by decide, rfl, rfl, rfl, rfl⟩

end Bus

end ConsoleBus
