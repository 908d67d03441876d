import ConsoleBus.Proofs.Updates

/-!
Stores that strike a hook. A store strikes a hook when a byte that it puts into memory is one of the
bytes that the hook watches (`Machine.Strikes`). To a hook a command is such a store, or it ends the
hook's interval (`Command.Clears`), or it is nothing at all (`Machine.respond_cases`); so what a hook
does on a run depends on where the run strikes it (`Machine.Struck`) and where its intervals end.
-/

namespace ConsoleBus

/-- Whether a command has the hooks evaluated for a store that never happened. -/
def Command.feigned : Command → Bool
  | .evaluate .. => true
  | _ => false

/-- The command ends an interval of the hook with this key: it is a flush, or it silences or
unsilences this hook. -/
def Command.Clears (c : Command) (k : UInt8) : Prop :=
  c = .flush ∨ c = .silence k ∨ c = .unsilence k

/-! ### Shared bytes -/

instance decidableCovers (start : Location) (len : Nat) (loc : Location) :
    Decidable (Memory.Covers start len loc) :=
  inferInstanceAs (Decidable (loc.region = start.region ∧ start.offset ≤ loc.offset ∧
    loc.offset < start.offset + len))

instance decidableLands (b : Bus) (addr : Address) (n : Nat) (range : Range) :
    Decidable (b.Lands addr n range) :=
  inferInstanceAs (Decidable (PageTable.powerOnWrite.resolveRange addr n = .ok range ∧
    ¬ (b.isolation.active = true ∧ range.region = .ram)))

instance decidableWatches (h : Hook) (loc : Location) : Decidable (h.Watches loc) :=
  match found : PageTable.powerOnRead.resolveRange h.start h.length.toNat with
  | .ok range => decidable_of_iff (Memory.Covers ⟨range.region, range.offset⟩ range.len loc) <| by
      simp [Hook.Watches, found]
  | .error _ => .isFalse <| by simp [Hook.Watches, found]

/-- Of the bytes that a store puts into memory one is found in the hook by looking at all of them. -/
theorem exists_shared_iff {b : Bus} {h : Hook} {addr : Address} {n : Nat} {range : Range}
    (lands : b.Lands addr n range) :
    (∃ loc, b.Writes addr n loc ∧ h.Watches loc) ↔
      ∃ i < n, h.Watches ⟨range.region, range.offset + i⟩ := by
  constructor
  · rintro ⟨⟨region, offset⟩, ⟨range', lands', rfl, low, high⟩, watched⟩
    have same : range' = range := by
      have resolved := lands'.1
      rw [lands.1] at resolved
      exact (Except.ok.inj resolved).symm
    subst same
    simp only at low high
    refine ⟨offset - range'.offset, by omega, ?_⟩
    rwa [Nat.add_sub_cancel' low]
  · rintro ⟨i, inside, watched⟩
    exact ⟨⟨range.region, range.offset + i⟩,
      ⟨range, lands, rfl, Nat.le_add_right _ _, Nat.add_lt_add_left inside _⟩, watched⟩

instance decidableShared (b : Bus) (h : Hook) (addr : Address) (n : Nat) :
    Decidable (∃ loc, b.Writes addr n loc ∧ h.Watches loc) :=
  match found : PageTable.powerOnWrite.resolveRange addr n with
  | .ok range =>
    if clear : b.isolation.active = true ∧ range.region = .ram then .isFalse <| by
      rintro ⟨loc, ⟨range', lands, -⟩, -⟩
      obtain rfl : range = range' := by
        have resolved := lands.1
        rw [found] at resolved
        exact Except.ok.inj resolved
      exact lands.2 clear
    else decidable_of_iff _ (exists_shared_iff ⟨found, clear⟩).symm
  | .error _ => .isFalse <| by
      rintro ⟨loc, ⟨range, lands, -⟩, -⟩
      have resolved := lands.1
      rw [found] at resolved
      cases resolved

namespace Machine

variable {m : Machine} {specs : List HookSpec} {run : List Command} {c : Command} {k : UInt8}
  {h : Hook}

/-- The command is a store, by the bus or by a handle, and puts a byte into memory that the hook with
this key watches. -/
def Strikes (m : Machine) (c : Command) (k : UInt8) : Prop :=
  ∃ p ∈ c.place?, ∃ h ∈ m.registry.get? k, ∃ loc, m.bus.Writes p.1 p.2.length loc ∧ h.Watches loc

instance decidableStrikes (m : Machine) (c : Command) (k : UInt8) : Decidable (m.Strikes c k) :=
  inferInstanceAs (Decidable (∃ p ∈ c.place?, ∃ h ∈ m.registry.get? k, _))

/-- A store that strikes a hook touches it. -/
theorem respond_of_strikes (hm : m.Serves specs) (found : m.registry.get? k = some h)
    (strikes : m.Strikes c k) (memory : Memory) :
    h.respond (m.stimulus c) memory = h.touch memory := by
  obtain ⟨⟨addr, bytes⟩, hp, h', found', shared⟩ := strikes
  rw [Option.mem_def, found] at found'
  cases found'
  exact respond_of_shared hm hp found shared memory

/-- A store that does not strike a hook leaves it alone. -/
theorem respond_of_misses (hm : m.Serves specs) (found : m.registry.get? k = some h)
    {addr : Address} {bytes : Bytes} (hp : c.place? = some (addr, bytes))
    (misses : ¬ m.Strikes c k) (memory : Memory) :
    h.respond (m.stimulus c) memory = (h, none) := by
  have listed := ((Registry.get?_eq_some_iff hm.registry.nodup_keys).1 found).1
  rw [respond_of_place hm hp listed, if_neg]
  intro reached
  exact misses ⟨_, hp, h, found, (reaches_iff_shared_byte hm hp listed).1 reached⟩

theorem place?_of_strikes (strikes : m.Strikes c k) : ∃ p, c.place? = some p := by
  obtain ⟨p, hp, -⟩ := strikes
  exact ⟨p, hp⟩

theorem not_clears_of_strikes (strikes : m.Strikes c k) : ¬ c.Clears k := by
  obtain ⟨p, hp⟩ := place?_of_strikes strikes
  rintro (rfl | rfl | rfl) <;> cases hp

/-- What a command is to a hook: a store that strikes it, the end of an interval, or nothing. -/
theorem respond_cases (hm : m.Serves specs) (found : m.registry.get? k = some h)
    (genuine : c.feigned = false) (memory : Memory) :
    (m.Strikes c k ∧ h.respond (m.stimulus c) memory = h.touch memory) ∨
      (¬ m.Strikes c k ∧
        ((c = .flush ∧ h.respond (m.stimulus c) memory = h.flush memory) ∨
          (c = .silence k ∧
            h.respond (m.stimulus c) memory = ({ h with state := .silenced }, none)) ∨
          (c = .unsilence k ∧
            h.respond (m.stimulus c) memory = ({ h with state := .noChanges }, none)) ∨
          (¬ c.Clears k ∧ h.respond (m.stimulus c) memory = (h, none)))) := by
  have key := ((Registry.get?_eq_some_iff hm.registry.nodup_keys).1 found).2
  by_cases strikes : m.Strikes c k
  · exact .inl ⟨strikes, respond_of_strikes hm found strikes memory⟩
  · refine .inr ⟨strikes, ?_⟩
    cases c with
    | store w addr value =>
      exact .inr (.inr (.inr ⟨by simp [Command.Clears], respond_of_misses hm found rfl strikes _⟩))
    | handleWrite addr value =>
      exact .inr (.inr (.inr ⟨by simp [Command.Clears], respond_of_misses hm found rfl strikes _⟩))
    | evaluate addr width => cases genuine
    | flush => exact .inl ⟨rfl, rfl⟩
    | silence key' =>
      by_cases same : key' = k
      · subst same
        exact .inr (.inl ⟨rfl, by simp [stimulus, Hook.respond, Hook.setIf, key]⟩)
      · have other : h.key ≠ key' := by rw [key]; exact fun eq => same eq.symm
        refine .inr (.inr (.inr ⟨by simp [Command.Clears, same], ?_⟩))
        simp [stimulus, Hook.respond, Hook.setIf, other]
    | unsilence key' =>
      by_cases same : key' = k
      · subst same
        exact .inr (.inr (.inl ⟨rfl, by simp [stimulus, Hook.respond, Hook.setIf, key]⟩))
      · have other : h.key ≠ key' := by rw [key]; exact fun eq => same eq.symm
        refine .inr (.inr (.inr ⟨by simp [Command.Clears, same], ?_⟩))
        simp [stimulus, Hook.respond, Hook.setIf, other]
    | _ => exact .inr (.inr (.inr ⟨by simp [Command.Clears], rfl⟩))

/-- A hook on which nothing waits says nothing to a command that does not strike it, and keeps its
snapshot. -/
theorem quiet_of_misses (hm : m.Serves specs) (found : m.registry.get? k = some h)
    (genuine : c.feigned = false) (idle : h.isPending = false) (misses : ¬ m.Strikes c k)
    (memory : Memory) :
    (h.respond (m.stimulus c) memory).2 = none ∧
      (h.respond (m.stimulus c) memory).1.isPending = false ∧
      (h.respond (m.stimulus c) memory).1.last = h.last := by
  rcases respond_cases hm found genuine memory with
    ⟨strikes, -⟩ | ⟨-, ⟨-, moved⟩ | ⟨-, moved⟩ | ⟨-, moved⟩ | ⟨-, moved⟩⟩
  · exact absurd strikes misses
  · rw [moved, Hook.flush_of_idle idle]
    exact ⟨rfl, idle, rfl⟩
  · rw [moved]
    exact ⟨rfl, rfl, rfl⟩
  · rw [moved]
    exact ⟨rfl, rfl, rfl⟩
  · rw [moved]
    exact ⟨rfl, idle, rfl⟩

/-- The events of a command that carry a key are those of the hook with that key. -/
theorem filter_events_of_found (hm : m.Serves specs) (found : m.registry.get? k = some h)
    (c : Command) : (m.events c).filter (fun e => e.key = k) =
      (h.respond (m.stimulus c) (m.next c).bus.memory).2.toList := by
  rw [filter_events hm c k, found, Option.bind_some]

theorem stimulus_eq_flushed (hs : m.stimulus c = .flushed) : c = .flush := by
  cases c with
  | flush => rfl
  | store w addr value =>
    simp only [stimulus] at hs
    split at hs <;> cases hs
  | handleWrite addr value =>
    simp only [stimulus] at hs
    split at hs <;> cases hs
  | _ => cases hs

/-! ### Struck runs -/

/-- Some store of the run strikes the hook with this key. -/
def Struck (m : Machine) (k : UInt8) : List Command → Prop
  | [] => False
  | c :: cs => m.Strikes c k ∨ (m.next c).Struck k cs

theorem struck_append (m : Machine) (k : UInt8) (run later : List Command) :
    m.Struck k (run ++ later) ↔ m.Struck k run ∨ (m.after run).Struck k later := by
  induction run generalizing m with
  | nil => simp [Struck]
  | cons c run ih => simp [Struck, ih, or_assoc]

end Machine

end ConsoleBus
