import ConsoleBus.Proofs.CacheIsolation

/-!
The bus as one flat store of bytes. Every command puts some bytes in place or none
(`Bus.landing?`), and that is all it does to storage (`Bus.byte_serve`). After a run each location
therefore holds the byte of the last landing that covers it, or its first byte
(`Machine.byte_after`), and a load puts its value together from these (`Machine.flat_store_after_run`).
-/

namespace ConsoleBus

open PageTable

/-! ### Landings -/

/-- Bytes that were put in place. -/
structure Landing where
  start : Location
  bytes : Bytes

/-- The byte that a landing puts at a location, if it covers it. -/
def Landing.byte? (l : Landing) (loc : Location) : Option UInt8 :=
  if loc.region = l.start.region ∧ l.start.offset ≤ loc.offset then
    l.bytes[loc.offset - l.start.offset]?
  else none

theorem Landing.byte?_eq_none_iff {l : Landing} {loc : Location} :
    l.byte? loc = none ↔ ¬ Memory.Covers l.start l.bytes.length loc := by
  unfold byte? Memory.Covers
  split
  · next inside =>
    simp only [List.getElem?_eq_none_iff, inside, true_and]
    omega
  · next outside => exact iff_of_true rfl fun covered => outside ⟨covered.1, covered.2.1⟩

/-- The byte that the last of some landings to cover a location puts there. -/
def latest? (landings : List Landing) (loc : Location) : Option UInt8 :=
  landings.reverse.findSome? fun l => l.byte? loc

theorem latest?_cons (l : Landing) (ls : List Landing) (loc : Location) :
    latest? (l :: ls) loc = (latest? ls loc).or (l.byte? loc) := by
  simp [latest?, List.findSome?_append]

theorem Memory.byte_write_eq (m : Memory) {l : Landing} (fits : Fits l.start l.bytes.length)
    (loc : Location) : (m.write l.start l.bytes).byte loc = (l.byte? loc).getD (m.byte loc) := by
  have written : m.write? l.start l.bytes = some (m.write l.start l.bytes) := by
    rw [write?_eq, if_pos fits]
  rw [byte_write written, Landing.byte?]
  split <;> rfl

/-- Storage after a landing, or after none. -/
def Memory.receive (m : Memory) : Option Landing → Memory
  | some l => m.write l.start l.bytes
  | none => m

/-! ### The place of an access -/

/-- The location of an access on the bus: the one that a table knows, or for a register the one in
the hardware window. -/
def PageTable.place? (t : PageTable) (addr : Address) : Option Location :=
  match classify addr with
  | .hardwareRegister => some ⟨.hardware, pageOffset addr⟩
  | _ => (t.locate addr).toOption

theorem PageTable.place?_register {t : PageTable} {addr : Address}
    (register : classify addr = .hardwareRegister) :
    t.place? addr = some ⟨.hardware, pageOffset addr⟩ := by
  rw [place?, register]

theorem PageTable.place?_of_not_register {t : PageTable} {addr : Address}
    (backed : classify addr ≠ .hardwareRegister) : t.place? addr = (t.locate addr).toOption := by
  unfold place?
  split
  · contradiction
  · rfl

theorem PageTable.place?_of_locate {t : PageTable} {addr : Address} {loc : Location}
    (located : t.locate addr = .ok loc) : t.place? addr = some loc := by
  rw [place?_of_not_register, located]
  · rfl
  · intro register
    rw [locate, register] at located
    cases located

namespace Bus

variable {b : Bus} {addr : Address} {c : Command}

/-- Whether the bytes at a location may be written: they fit, and are not in RAM while the cache is
isolated. -/
def Admits (b : Bus) (loc : Location) (n : Nat) : Prop :=
  Memory.Fits loc n ∧ ¬ (b.isolation.active = true ∧ loc.region = .ram)

instance (b : Bus) (loc : Location) (n : Nat) : Decidable (b.Admits loc n) :=
  inferInstanceAs (Decidable (_ ∧ _))

/-- The landing of some bytes at a location, if they may be written there. -/
def admit? (b : Bus) (place : Option Location) (bytes : Bytes) : Option Landing :=
  match place with
  | some loc => if b.Admits loc bytes.length then some ⟨loc, bytes⟩ else none
  | none => none

/-- What a command puts in place: a store on the bus goes where the power-on table or a register
has it, a store by a handle where the power-on table has it. -/
def landing? (b : Bus) : Command → Option Landing
  | .store w addr value =>
    b.admit? (powerOnWrite.place? addr) (Bytes.toLE w.bytes (w.narrow value).toNat)
  | .handleWrite addr value => b.admit? (powerOnWrite.locate addr).toOption [value]
  | _ => none

theorem fits_of_admit? {place : Option Location} {bytes : Bytes} {l : Landing}
    (h : b.admit? place bytes = some l) : Memory.Fits l.start l.bytes.length := by
  unfold admit? at h
  split at h
  · split at h
    · next admitted =>
      cases h
      exact admitted.1
    · cases h
  · cases h

theorem fits_of_landing? {l : Landing} (h : b.landing? c = some l) :
    Memory.Fits l.start l.bytes.length := by
  cases c with
  | store w addr value => exact fits_of_admit? h
  | handleWrite addr value => exact fits_of_admit? h
  | _ => cases h

/-- The target of some bytes is where the power-on table has them, if they may be written there. -/
theorem target?_iff_admits (h : b.isolation.Coherent) {n : Nat} {loc : Location} :
    b.target? addr n = some loc ↔ powerOnWrite.locate addr = .ok loc ∧ b.Admits loc n := by
  rw [target?_eq_some_iff, h.locate_iff, Admits, and_assoc, and_comm (a := ¬ _)]

/-- Bytes with a target land there. -/
theorem admit?_locate (h : b.isolation.Coherent) (addr : Address) (bytes : Bytes) :
    b.admit? (powerOnWrite.locate addr).toOption bytes =
      (b.target? addr bytes.length).map (⟨·, bytes⟩) := by
  cases target : b.target? addr bytes.length with
  | some loc =>
    obtain ⟨located, admitted⟩ := (target?_iff_admits h).1 target
    rw [located]
    exact if_pos admitted
  | none =>
    cases located : powerOnWrite.locate addr with
    | error e => rfl
    | ok loc =>
      have refused : ¬ b.Admits loc bytes.length := by
        intro admitted
        rw [(target?_iff_admits h).2 ⟨located, admitted⟩] at target
        cases target
      exact if_neg refused

/-- Storage receives bytes outside RAM as it writes them. -/
theorem receive_admit? (b : Bus) (loc : Location) (other : loc.region ≠ .ram) (bytes : Bytes) :
    b.memory.receive (b.admit? (some loc) bytes) = b.memory.write loc bytes := by
  by_cases fits : Memory.Fits loc bytes.length
  · have admitted : b.Admits loc bytes.length := ⟨fits, fun both => other both.2⟩
    rw [admit?, if_pos admitted]
    rfl
  · have refused : ¬ b.Admits loc bytes.length := fun admitted => fits admitted.1
    rw [admit?, if_neg refused, Memory.write_of_not_fits _ fits]
    rfl

/-- All that a command does to storage is to put its landing in place. -/
theorem memory_serve (h : b.isolation.Coherent) (plain : b.registers = .plain) (c : Command) :
    (b.serve c).memory = b.memory.receive (b.landing? c) := by
  -- what has a target is received there
  have received (addr : Address) (bytes : Bytes) :
      b.memory.receive (b.admit? (powerOnWrite.locate addr).toOption bytes) =
        match b.target? addr bytes.length with
        | some loc => b.memory.write loc bytes
        | none => b.memory := by
    rw [admit?_locate h]
    cases b.target? addr bytes.length <;> rfl
  cases c with
  | load w addr => exact (b.load_keeps addr w).1
  | store w addr value =>
    rw [serve, landing?]
    by_cases register : classify addr = .hardwareRegister
    · have other : Region.hardware ≠ .ram := by decide
      rw [store, register, plain, place?_register register]
      exact (b.receive_admit? ⟨.hardware, pageOffset addr⟩ other _).symm
    · have landed := received addr (Bytes.toLE w.bytes (w.narrow value).toNat)
      rw [Bytes.length_toLE] at landed
      rw [memory_store register, place?_of_not_register register]
      exact landed.symm
  | handleWrite addr value =>
    rw [serve, (storeByHandle_spec h addr value).1, landing?]
    exact (received addr [value]).symm
  | _ => rfl

/-- A command changes the bytes that its landing covers. -/
theorem byte_serve (h : b.isolation.Coherent) (plain : b.registers = .plain) (c : Command)
    (loc : Location) :
    (b.serve c).memory.byte loc =
      ((b.landing? c).bind fun l => l.byte? loc).getD (b.memory.byte loc) := by
  rw [memory_serve h plain]
  cases landed : b.landing? c with
  | none => rfl
  | some l => exact b.memory.byte_write_eq (fits_of_landing? landed) loc

/-! ### Loads -/

/-- A load whose bytes are in place is put together from them. -/
theorem load_of_place (plain : b.registers = .plain) {loc : Location} {w : Width}
    (place : powerOnRead.place? addr = some loc) (fits : Memory.Fits loc w.bytes) :
    (b.load addr w).1 = UInt32.ofNat (Bytes.ofLE
      ((List.range w.bytes).map fun i => b.memory.byte ⟨loc.region, loc.offset + i⟩)) := by
  obtain ⟨bytes, hbytes⟩ : ∃ bytes, bytes =
    (List.range w.bytes).map fun i => b.memory.byte ⟨loc.region, loc.offset + i⟩ := ⟨_, rfl⟩
  have length : bytes.length = w.bytes := by simp [hbytes]
  have read : b.memory.read? loc.region loc.offset w.bytes = some bytes :=
    Backing.read?_eq_some_iff.2 ⟨fits, hbytes⟩
  rw [← hbytes]
  by_cases register : classify addr = .hardwareRegister
  · rw [place?_register register] at place
    cases place
    rw [load, register, plain]
    simp only [RegisterHandler.plain, read]
    refine Width.narrow_of_lt ?_
    calc (UInt32.ofNat (Bytes.ofLE bytes)).toNat
        = Bytes.ofLE bytes % 2 ^ 32 := UInt32.toNat_ofNat'
      _ ≤ Bytes.ofLE bytes := Nat.mod_le _ _
      _ < Bytes.bound bytes.length := Bytes.ofLE_lt bytes
      _ = Bytes.bound w.bytes := by rw [length]
  · rw [place?_of_not_register register] at place
    have located : powerOnRead.locate addr = .ok loc := by
      cases found : powerOnRead.locate addr <;> simp [found, Except.toOption] at place
      rw [place]
    rcases b.load_cases addr w with ⟨register', -⟩ | ⟨loc', bytes, located', read', loaded⟩ |
      ⟨missed, -⟩
    · exact absurd register' register
    · rw [located] at located'
      cases located'
      rw [read] at read'
      cases read'
      rw [loaded]
    · exact absurd fits (missed loc located)

/-- A load through a page that has none of the bytes, or not all of them, is a miss. -/
theorem load_of_miss {w : Width} (page : classify addr = .table)
    (missed : ∀ loc, powerOnRead.resolve addr = some loc → ¬ Memory.Fits loc w.bytes) :
    b.load addr w = (0, b.missRead, []) := by
  have resolved {loc : Location} (located : powerOnRead.locate addr = .ok loc) :
      powerOnRead.resolve addr = some loc := by
    rcases locate_eq_ok_iff.1 located with ⟨scratchpad, -⟩ | ⟨-, resolved⟩
    · rw [page] at scratchpad
      cases scratchpad
    · exact resolved
  rcases b.load_cases addr w with ⟨register, -⟩ | ⟨loc, bytes, located, read, -⟩ | ⟨-, loaded⟩
  · rw [page] at register
    cases register
  · refine absurd ?_ (missed loc (resolved located))
    by_contra late
    rw [Memory.read?_eq_none_iff.2 late] at read
    cases read
  · exact loaded

/-- A store through a page that has none of the bytes, or not all of them, changes no storage; outside
isolation and the cache-control register it is a miss. -/
theorem store_of_miss {w : Width} (page : classify addr = .table)
    (missed : ∀ loc, b.isolation.table.resolve addr = some loc → ¬ Memory.Fits loc w.bytes)
    (value : UInt32) :
    (b.store addr w value).1.memory = b.memory ∧
      (b.isolation.active = false → addr ≠ cacheControl →
        b.store addr w value = (b.missWrite, [])) := by
  have lost : b.target? addr w.bytes = none := by
    rw [target?_table page, Option.bind_eq_none_iff]
    exact fun loc resolved => if_neg (missed loc resolved)
  rcases b.store_cases addr w value with ⟨register, -⟩ | ⟨loc, after, target, -, -⟩ |
    ⟨-, -, ⟨control, -, stored⟩ | ⟨-, active, stored⟩ | ⟨-, stored⟩⟩
  · rw [page] at register
    cases register
  · rw [lost] at target
    cases target
  · rw [stored]
    exact ⟨rfl, fun _ other => absurd control other⟩
  · rw [stored]
    exact ⟨rfl, fun opened => by rw [active] at opened; cases opened⟩
  · rw [stored]
    exact ⟨rfl, fun _ _ => rfl⟩

end Bus

/-! ### Runs -/

namespace Machine

variable {m : Machine} {specs : List HookSpec}

/-- The landings of a run, in their order. -/
def landings (m : Machine) : List Command → List Landing
  | [] => []
  | c :: cs => (m.bus.landing? c).toList ++ (m.next c).landings cs

/-- A location holds the byte of the last landing that covers it, or still its first byte. -/
theorem byte_after (hm : m.Serves specs) (plain : m.bus.registers = .plain) {cs : List Command}
    (indirect : ∀ c ∈ cs, c.direct = false) (loc : Location) :
    (m.after cs).bus.memory.byte loc =
      (latest? (m.landings cs) loc).getD (m.bus.memory.byte loc) := by
  induction cs generalizing m with
  | nil => rfl
  | cons c cs ih =>
    have indirect' := indirect c (List.mem_cons_self ..)
    have plain' : (m.next c).bus.registers = .plain := by rw [registers_next, plain]
    rw [after_cons, ih (hm.next c) plain' fun d hd => indirect d (List.mem_cons_of_mem _ hd),
      bus_next m indirect', Bus.byte_serve hm.isolation plain, landings]
    cases m.bus.landing? c with
    | none => rfl
    | some l =>
      rw [Option.toList_some, List.singleton_append, latest?_cons, Option.bind_some]
      cases latest? ((m.next c).landings cs) loc <;> rfl

/-- The bus is one flat store of bytes. After a run from power-on, over any contents of storage, a
load whose bytes lie in one region takes each of them from the last landing that covers it, through
whatever mirror, width or accessor that came, or else from power-on. A command changes no byte but
those that its landing covers. A load through a page that has none or not all of its bytes gives
zero and is counted; such a store changes no byte, and is counted outside isolation and the
cache-control register. -/
theorem flat_store_after_run (fresh : m.Fresh specs) (plain : m.bus.registers = .plain)
    {run : List Command} (indirect : ∀ c ∈ run, c.direct = false) :
    (∀ addr w loc, powerOnRead.place? addr = some loc → Memory.Fits loc w.bytes →
        ((m.after run).load addr w).1 = UInt32.ofNat (Bytes.ofLE ((List.range w.bytes).map fun i =>
          (latest? (m.landings run) ⟨loc.region, loc.offset + i⟩).getD
            (m.bus.memory.byte ⟨loc.region, loc.offset + i⟩)))) ∧
      (∀ c, c.direct = false → ∀ loc,
        (∀ l, (m.after run).bus.landing? c = some l →
          ¬ Memory.Covers l.start l.bytes.length loc) →
        ((m.after run).next c).bus.memory.byte loc = (m.after run).bus.memory.byte loc) ∧
      (∀ addr w, classify addr = .table →
        (∀ loc, powerOnRead.resolve addr = some loc → ¬ Memory.Fits loc w.bytes) →
        ((m.after run).load addr w).1 = 0 ∧
          ((m.after run).next (.load w addr)).bus.memory = (m.after run).bus.memory ∧
          ((m.after run).next (.load w addr)).bus.stats.unmappedReads =
            (m.after run).bus.stats.unmappedReads + 1) ∧
      ∀ addr w value, classify addr = .table →
        (∀ loc, (m.after run).bus.isolation.table.resolve addr = some loc →
          ¬ Memory.Fits loc w.bytes) →
        ((m.after run).next (.store w addr value)).bus.memory = (m.after run).bus.memory ∧
          ((m.after run).bus.isolation.active = false → addr ≠ cacheControl →
            ((m.after run).next (.store w addr value)).bus.stats.unmappedWrites =
              (m.after run).bus.stats.unmappedWrites + 1) := by
  have hm := fresh.serves.after run
  have plain' : (m.after run).bus.registers = .plain := by rw [registers_after, plain]
  refine ⟨?_, ?_, ?_, ?_⟩
  · -- a load with its bytes in place
    intro addr w loc place fits
    have read := Bus.load_of_place plain' place fits
    simp only [byte_after fresh.serves plain indirect] at read
    exact read
  · -- the bytes that a command leaves
    intro c indirect' loc clear
    rw [bus_next _ indirect', Bus.byte_serve hm.isolation plain']
    cases landed : (m.after run).bus.landing? c with
    | none => rfl
    | some l => rw [Option.bind_some, Landing.byte?_eq_none_iff.2 (clear l landed), Option.getD_none]
  · -- a load that misses
    intro addr w page missed
    have loaded : (m.after run).bus.load addr w = (0, (m.after run).bus.missRead, []) :=
      Bus.load_of_miss page missed
    rw [bus_next _ rfl, Bus.serve, load, loaded]
    exact ⟨rfl, rfl, rfl⟩
  · -- a store that misses
    intro addr w value page missed
    obtain ⟨kept, counted⟩ := Bus.store_of_miss page missed (w.narrow value)
    rw [bus_next _ rfl, Bus.serve]
    refine ⟨kept, ?_⟩
    intro opened other
    rw [counted opened other]
    rfl

/-- A word through one window and a half-word through another are read as one word through a third. -/
theorem mirrored_stores_read :
    let m : Machine := {}
    let run : List Command := [.store .word 0x80000010 0x11223344, .store .half 0xa0200012 0xbeef]
    m.Fresh [] ∧ m.bus.registers = .plain ∧ (∀ c ∈ run, c.direct = false) ∧
      ((m.after run).load 0x00600010 .word).1 = 0xbeef3344 := by
  intro m run
  have fresh : m.Fresh [] := ⟨rfl, rfl⟩
  have indirect : ∀ c ∈ run, c.direct = false := by decide
  refine ⟨fresh, rfl, indirect, ?_⟩
  rw [(flat_store_after_run fresh rfl indirect).1 0x00600010 .word ⟨.ram, 0x10⟩ (by decide)
    (by decide)]
  decide

end Machine

end ConsoleBus
