import ConsoleBus.Control.Server
import ConsoleBus.Proofs.ByteRanges
import ConsoleBus.Proofs.Dispatch

/-!
What a request can reach. `Plane.Scope` lists, part by part, the requests that may change the part
and how far, and `Server.scope_of_receive` says that every request a server takes stays within it.
Only pokes and drills store, through the handle, and one store of theirs reaches no byte but the one
that its address stands for (`Bus.sameBut_storeByHandle`); a run of them reaches no more
(`Machine.sameBut_after`).
-/

namespace ConsoleBus

open PageTable

/-! ### Kinds of requests -/

namespace Request

/-- The request stores at an address. -/
def StoresAt (r : Request) (addr : Address) : Prop :=
  (∃ value, r = .poke addr value) ∨ ∃ value count, r = .drill addr value count

/-- The request sets the state of the hook with a key. -/
def Mutes (r : Request) (key : UInt8) : Prop := r = .silence key ∨ r = .unsilence key

/-- The request works on the query segment. -/
def Queries (r : Request) : Prop :=
  (∃ start len key, r = .queryMemory start len key) ∨ r = .releaseQuery ∨ r = .shutdown

/-- The request leaves work in the slot. -/
def Defers (r : Request) : Prop := ∃ path, r = .saveState path ∨ r = .loadState path

/-- The request sets the flags of a run. -/
def Steers (r : Request) : Prop := r = .pause ∨ r = .resume ∨ r = .shutdown

/-- The request writes memory to the file with this number. -/
def DumpsInto (r : Request) (files : FileTree) (id : FileId) : Prop :=
  ∃ start len path after, r = .dumpMemory start len path ∧
    files.openWrite true path = .ok (id, after)

theorem StoresAt.unique {r : Request} {addr addr' : Address} (h : r.StoresAt addr)
    (h' : r.StoresAt addr') : addr = addr' := by
  rcases h with ⟨value, rfl⟩ | ⟨value, count, rfl⟩
  · rcases h' with ⟨_, same⟩ | ⟨_, _, same⟩ <;> cases same
    rfl
  · rcases h' with ⟨_, same⟩ | ⟨_, _, same⟩ <;> cases same
    rfl

/-- A machine is given stores at one address, or a hook to be set, or nothing to do. -/
theorem commands_cases (r : Request) :
    (∃ addr value n, r.StoresAt addr ∧ r.commands = List.replicate n (.handleWrite addr value)) ∨
      (∃ key, r.Mutes key ∧ (r.commands = [.silence key] ∨ r.commands = [.unsilence key])) ∨
      r.commands = [] := by
  cases r with
  | poke addr value => exact .inl ⟨addr, value, 1, .inl ⟨value, rfl⟩, rfl⟩
  | drill addr value count =>
    exact .inl ⟨addr, value, count.toNat, .inr ⟨value, count, rfl⟩, rfl⟩
  | silence key => exact .inr (.inl ⟨key, .inl rfl, .inl rfl⟩)
  | unsilence key => exact .inr (.inl ⟨key, .inr rfl, .inr rfl⟩)
  | _ => exact .inr (.inr rfl)

theorem commands_of_storesAt {r : Request} {addr : Address} (stores : r.StoresAt addr) :
    ∃ value n, r.commands = List.replicate n (.handleWrite addr value) := by
  rcases stores with ⟨value, rfl⟩ | ⟨value, count, rfl⟩
  · exact ⟨value, 1, rfl⟩
  · exact ⟨value, count.toNat, rfl⟩

end Request

/-! ### Stores at one address -/

/-- Two buses that differ in the byte at one address at most. -/
structure Bus.SameBut (addr : Address) (b b' : Bus) : Prop where
  isolation : b'.isolation = b.isolation
  byte : ∀ loc, b'.memory.byte loc ≠ b.memory.byte loc → powerOnWrite.locate addr = .ok loc

namespace Bus

variable {addr : Address} {b b' b'' : Bus}

theorem SameBut.refl (addr : Address) (b : Bus) : b.SameBut addr b :=
  ⟨rfl, fun _ changed => absurd rfl changed⟩

theorem SameBut.trans (first : b.SameBut addr b') (second : b'.SameBut addr b'') :
    b.SameBut addr b'' := by
  refine ⟨second.isolation.trans first.isolation, fun loc changed => ?_⟩
  by_cases kept : b'.memory.byte loc = b.memory.byte loc
  · exact second.byte loc (kept ▸ changed)
  · exact first.byte loc kept

theorem sameBut_storeByHandle (b : Bus) (addr : Address) (value : UInt8) :
    b.SameBut addr (b.storeByHandle addr value).2.1 := by
  unfold storeByHandle
  cases located : powerOnWrite.locate addr with
  | error e => exact .refl addr b
  | ok start =>
    simp only
    split
    · exact .refl addr b
    · refine ⟨rfl, fun loc changed => ?_⟩
      -- one byte covers one location
      have covered : Memory.Covers start 1 loc := by
        by_contra clear
        exact changed (b.memory.byte_write_of_not_covers clear)
      obtain ⟨region, low, high⟩ := covered
      obtain rfl : loc = start := by
        obtain ⟨r, o⟩ := loc
        obtain ⟨r', o'⟩ := start
        simp only at region low high
        simp only [Location.mk.injEq]
        exact ⟨region, by omega⟩
      exact located

end Bus

namespace Machine

/-- A machine that hears of stores changes its notifier by reports only. -/
theorem exists_report_hear (m : Machine) (effects : List Effect) :
    ∃ events, (m.hear effects).notifier = m.notifier.report events := by
  rw [hear_eq]
  induction effects.filterMap Effect.announced? generalizing m with
  | nil => exact ⟨[], rfl⟩
  | cons p ps ih =>
    obtain ⟨later, reported⟩ := ih (m.evaluate p.1 p.2)
    refine ⟨(m.registry.evaluate p.1 p.2 m.bus.memory).2 ++ later, ?_⟩
    rw [List.foldl_cons, reported]
    simp only [evaluate, Notifier.report, List.foldl_append]

theorem sameBut_after (m : Machine) (addr : Address) (value : UInt8) (n : Nat) :
    m.bus.SameBut addr (m.after (List.replicate n (.handleWrite addr value))).bus := by
  induction n generalizing m with
  | zero => exact .refl addr m.bus
  | succ n ih =>
    have first : m.bus.SameBut addr (m.next (.handleWrite addr value)).bus := by
      rw [bus_next m rfl]
      exact m.bus.sameBut_storeByHandle addr value
    exact first.trans (ih _)

theorem exists_report_after (m : Machine) (addr : Address) (value : UInt8) (n : Nat) :
    ∃ events, (m.after (List.replicate n (.handleWrite addr value))).notifier =
      m.notifier.report events := by
  induction n generalizing m with
  | zero => exact ⟨[], rfl⟩
  | succ n ih =>
    obtain ⟨first, reported⟩ := exists_report_hear
      { m with bus := (m.bus.storeByHandle addr value).2.1 } (m.bus.storeByHandle addr value).2.2
    obtain ⟨later, reportedLater⟩ := ih (m.next (.handleWrite addr value))
    refine ⟨first ++ later, ?_⟩
    rw [List.replicate_succ, after_cons, reportedLater, next_handleWrite, reported]
    simp only [Notifier.report, List.foldl_append]

end Machine

/-! ### Hooks that are set -/

namespace Registry

/-- Setting the state of a hook leaves all hooks with other keys as they were. -/
theorem forall₂_setState (r : Registry) (key : UInt8) (state : HookState) :
    List.Forall₂ (fun h h' : Hook => h.key ≠ key → h' = h) r.hooks
      (r.setState key state).1.hooks := by
  rw [setState, List.forall₂_map_right_iff, List.forall₂_same]
  exact fun h _ other => if_neg other

theorem setState_of_absent {r : Registry} {key : UInt8} (absent : r.get? key = none)
    (state : HookState) : (r.setState key state).1 = r := by
  have other : ∀ h ∈ r.hooks, (if h.key = key then { h with state := state } else h) = h :=
    fun h hh => if_neg (by simpa using List.find?_eq_none.1 absent h hh)
  rw [setState, List.map_congr_left other, List.map_id']

end Registry

/-! ### Files -/

namespace FileTree

variable {t t' : FileTree} {id : FileId}

theorem bytesOf_setBytes_of_ne {other : FileId} (ne : other ≠ id) (t : FileTree)
    (bytes : ByteArray) : (t.setBytes id bytes).bytesOf other = t.bytesOf other := by
  simp only [bytesOf, setBytes, Array.getD_eq_getD_getElem?,
    Array.getElem?_setIfInBounds_ne ne.symm]

/-- A file that is made holds no bytes yet, so no bytes change when a file is opened. -/
theorem bytesOf_openWrite {create : Bool} {p : Path} (opened : t.openWrite create p = .ok (id, t'))
    (other : FileId) : t'.bytesOf other = t.bytesOf other := by
  unfold openWrite at opened
  split at opened
  · cases opened
  · split at opened
    · cases opened
      simp only [bytesOf, Array.getD_eq_getD_getElem?, Array.getElem?_push]
      split
      · next last => simp [last]
      · rfl
    · cases opened
  · cases opened
    rfl
  · cases opened
  · cases opened

/-- A file is changed by writing to a path only if the path leads to it. -/
theorem bytesOf_write {p : Path} {bytes : ByteArray} (written : t.write p bytes = .ok t')
    {other : FileId} (changed : t'.bytesOf other ≠ t.bytesOf other) :
    ∃ after, t.openWrite true p = .ok (other, after) := by
  unfold write at written
  cases opened : t.openWrite true p with
  | error e => simp [opened] at written
  | ok file =>
    obtain ⟨id, after⟩ := file
    simp only [opened] at written
    cases written
    by_cases same : other = id
    · exact ⟨after, same ▸ rfl⟩
    · rw [bytesOf_setBytes_of_ne same, bytesOf_openWrite opened] at changed
      exact absurd rfl changed

end FileTree

namespace Plane

variable {p : Plane} {r : Request}

/-! ### The plane after a request -/

/-- The plane after a request that a server takes. -/
def served (p : Plane) (r : Request) : Plane :=
  if r = .shutdown then p.close else (p.dispatch r).1

theorem served_of_ne (carried : r ≠ .shutdown) (p : Plane) : p.served r = (p.dispatch r).1 :=
  if_neg carried

/-- A request is carried out, and then a status is sent at most. -/
theorem dispatch_eq (p : Plane) (r : Request) :
    (p.dispatch r).1 = { (p.handle r).plane with machine :=
      { p.machine.after r.commands with notifier :=
        (p.machine.after r.commands).notifier.sendAll ((p.answer r).toList.map .status) } } := by
  rw [← machine_handle]
  exact statuses_eq _ _

theorem bus_served (p : Plane) (r : Request) :
    (p.served r).machine.bus = (p.machine.after r.commands).bus := by
  unfold served
  split
  · next closed => subst closed; rfl
  · rw [dispatch_eq]

theorem registry_served (p : Plane) (r : Request) :
    (p.served r).machine.registry = (p.machine.after r.commands).registry := by
  unfold served
  split
  · next closed => subst closed; rfl
  · rw [dispatch_eq]

theorem notifier_served (p : Plane) (r : Request) :
    (p.served r).machine.notifier =
      if r = .shutdown then p.machine.notifier.flush.2
      else (p.machine.after r.commands).notifier.sendAll ((p.answer r).toList.map .status) := by
  unfold served
  split
  · rfl
  · rw [dispatch_eq]

/-- A dump changes the file that it goes to at most. -/
theorem host_dump (p : Plane) (start : Address) (len : UInt32) (path : Path) :
    (p.dump start len.toNat path).plane.host.segments = p.host.segments ∧
      ∀ id, (p.dump start len.toNat path).plane.host.files.bytesOf id ≠ p.host.files.bytesOf id →
        (Request.dumpMemory start len path).DumpsInto p.host.files id := by
  have unwritten {q : Plane} (same : q = p) : q.host.segments = p.host.segments ∧
      ∀ id, q.host.files.bytesOf id ≠ p.host.files.bytesOf id →
        (Request.dumpMemory start len path).DumpsInto p.host.files id :=
    ⟨by rw [same], fun id changed => absurd (by rw [same]) changed⟩
  unfold dump
  split
  · exact unwritten rfl
  · split
    · exact unwritten rfl
    · next files written =>
      refine ⟨rfl, fun id changed => ?_⟩
      obtain ⟨after, opened⟩ := FileTree.bytesOf_write written changed
      exact ⟨start, len, path, after, rfl, opened⟩

/-- The parts of the plane beside its machine, and the requests that leave each as it was. -/
structure Keeps (p : Plane) (r : Request) (q : Plane) : Prop where
  run : ¬ r.Steers → q.run = p.run
  slot : ¬ r.Defers → q.slot = p.slot
  query : ¬ r.Queries → q.query = p.query
  segments : ¬ r.Queries → q.host.segments = p.host.segments
  files : ∀ id, ¬ r.Queries → ¬ r.DumpsInto p.host.files id →
    q.host.files.bytesOf id = p.host.files.bytesOf id

/-- A request that changes the run, the slot or the front end alone. -/
theorem Keeps.of_parts {q : Plane} (run : ¬ r.Steers → q.run = p.run)
    (slot : ¬ r.Defers → q.slot = p.slot) (query : q.query = p.query) (host : q.host = p.host) :
    p.Keeps r q :=
  ⟨run, slot, fun _ => query, fun _ => by rw [host], fun _ _ _ => by rw [host]⟩

theorem keeps_handle (p : Plane) (r : Request) : p.Keeps r (p.handle r).plane := by
  cases r with
  | pause => exact .of_parts (fun other => absurd (.inl rfl) other) (fun _ => rfl) rfl rfl
  | resume => exact .of_parts (fun other => absurd (.inr (.inl rfl)) other) (fun _ => rfl) rfl rfl
  | saveState path =>
    rw [show p.handle (.saveState path) = p.defer ⟨.save, path⟩ from rfl, defer_plane]
    exact .of_parts (fun _ => rfl) (fun other => absurd ⟨path, .inl rfl⟩ other) rfl rfl
  | loadState path =>
    rw [show p.handle (.loadState path) = p.defer ⟨.load, path⟩ from rfl, defer_plane]
    exact .of_parts (fun _ => rfl) (fun other => absurd ⟨path, .inr rfl⟩ other) rfl rfl
  | queryMemory start len key =>
    have queries : (Request.queryMemory start len key).Queries := .inl ⟨start, len, key, rfl⟩
    obtain ⟨query, host, -, after⟩ := p.copyToSegment_plane start len.toNat key
    rw [show p.handle (.queryMemory start len key) = p.copyToSegment start len.toNat key from rfl,
      after]
    exact ⟨fun _ => rfl, fun _ => rfl, absurd queries, absurd queries, fun _ => absurd queries⟩
  | releaseQuery =>
    have queries : Request.releaseQuery.Queries := .inr (.inl rfl)
    exact ⟨fun _ => rfl, fun _ => rfl, absurd queries, absurd queries, fun _ => absurd queries⟩
  | dumpMemory start len path =>
    obtain ⟨segments, files⟩ := p.host_dump start len path
    obtain ⟨host, after⟩ := p.dump_plane start len.toNat path
    rw [show p.handle (.dumpMemory start len path) = p.dump start len.toNat path from rfl]
    rw [after] at segments files ⊢
    exact ⟨fun _ => rfl, fun _ => rfl, fun _ => rfl, fun _ => segments,
      fun id _ elsewhere => not_not.1 (mt (files id) elsewhere)⟩
  | _ => exact .of_parts (fun _ => rfl) (fun _ => rfl) rfl rfl

theorem keeps_served (p : Plane) (r : Request) : p.Keeps r (p.served r) := by
  by_cases closed : r = .shutdown
  · subst closed
    have steers : Request.shutdown.Steers := .inr (.inr rfl)
    have queries : Request.shutdown.Queries := .inr (.inr rfl)
    exact ⟨absurd steers, fun _ => rfl, absurd queries, absurd queries, fun _ => absurd queries⟩
  · have kept := p.keeps_handle r
    rw [served_of_ne closed, dispatch_eq]
    exact ⟨kept.run, kept.slot, kept.query, kept.segments, kept.files⟩

/-- A request to set a hook does nothing else. -/
theorem served_of_mutes {key : UInt8} (mutes : r.Mutes key) (p : Plane) :
    ∃ state, p.served r = { p with machine :=
      { p.machine with registry := (p.machine.registry.setState key state).1 } } := by
  rcases mutes with rfl | rfl
  · exact ⟨.silenced, rfl⟩
  · exact ⟨.noChanges, rfl⟩

/-! ### Scopes -/

/-- The plane `q` is `p` after a request that changed no more than it may. -/
structure Scope (p : Plane) (r : Request) (q : Plane) : Prop where
  /-- Memory is changed only by a request that stores, -/
  memory : q.machine.bus.memory ≠ p.machine.bus.memory → ∃ addr, r.StoresAt addr
  /-- and then only in the byte that its address stands for. -/
  byte : ∀ addr, r.StoresAt addr → ∀ loc,
    q.machine.bus.memory.byte loc ≠ p.machine.bus.memory.byte loc →
      powerOnWrite.locate addr = .ok loc
  /-- Only a request that stores has hooks report. Beside their events the channel gets the answer
  to the request, and a shutdown flushes it. -/
  events : ∃ events, (events ≠ [] → ∃ addr, r.StoresAt addr) ∧
    q.machine.notifier =
      if r = .shutdown then p.machine.notifier.flush.2
      else (p.machine.notifier.report events).sendAll ((p.answer r).toList.map .status)
  /-- Hooks, with their states and snapshots, are changed only by a request that stores or that sets
  a hook, -/
  registry : q.machine.registry ≠ p.machine.registry →
    (∃ addr, r.StoresAt addr) ∨ ∃ key, r.Mutes key
  /-- and one that sets a hook changes nothing but the hooks with its key, -/
  muted : ∀ key, r.Mutes key → ∃ hooks,
    List.Forall₂ (fun h h' : Hook => h.key ≠ key → h' = h) p.machine.registry.hooks hooks ∧
      q = { p with machine :=
        { p.machine with registry := { p.machine.registry with hooks := hooks } } }
  /-- so nothing if there is none. -/
  unknown : ∀ key, r.Mutes key → p.machine.registry.get? key = none → q = p
  slot : q.slot ≠ p.slot → r.Defers
  run : q.run ≠ p.run → r.Steers
  /-- Only requests that work on the segment attach it, release it or change its bytes. -/
  segment : q.query ≠ p.query ∨ q.host.segments ≠ p.host.segments → r.Queries
  /-- Beside them a dump writes to a file, and to no other than the one that its path leads to. -/
  files : ∀ id, q.host.files.bytesOf id ≠ p.host.files.bytesOf id →
    r.Queries ∨ r.DumpsInto p.host.files id
  isolation : q.machine.bus.isolation = p.machine.bus.isolation
  /-- The ROM and the hardware registers behind the scratchpad stay as they are. -/
  fixed : ∀ loc, loc.region = .bios ∨ loc.region = .hardware ∧ 0x400 ≤ loc.offset →
    q.machine.bus.memory.byte loc = p.machine.bus.memory.byte loc

/-- The bus changes by stores at one address or not at all. -/
theorem bus_served_cases (p : Plane) (r : Request) :
    (∃ addr, r.StoresAt addr ∧ p.machine.bus.SameBut addr (p.served r).machine.bus) ∨
      (∀ addr, ¬ r.StoresAt addr) ∧ (p.served r).machine.bus = p.machine.bus := by
  by_cases stores : ∃ addr, r.StoresAt addr
  · obtain ⟨addr, stores⟩ := stores
    obtain ⟨value, n, commands⟩ := Request.commands_of_storesAt stores
    refine .inl ⟨addr, stores, ?_⟩
    rw [bus_served, commands]
    exact p.machine.sameBut_after addr value n
  · refine .inr ⟨not_exists.1 stores, ?_⟩
    rw [bus_served]
    rcases r.commands_cases with ⟨addr, -, -, stored, -⟩ | ⟨key, -, commands | commands⟩ | commands
    · exact absurd ⟨addr, stored⟩ stores
    · rw [commands]; rfl
    · rw [commands]; rfl
    · rw [commands]; rfl

/-- The byte at an address is neither in the ROM nor in a register behind the scratchpad. -/
theorem not_fixed_of_locate {addr : Address} {loc : Location}
    (located : powerOnWrite.locate addr = .ok loc) :
    ¬ (loc.region = .bios ∨ loc.region = .hardware ∧ 0x400 ≤ loc.offset) := by
  obtain ⟨readable, writable⟩ := locate_powerOnWrite_iff.1 located
  have visible := (locate_powerOnRead_iff.1 readable).1
  rintro (rom | ⟨hardware, behind⟩)
  · exact writable rom
  · rw [hardware] at visible
    exact absurd visible (Nat.not_lt.2 behind)

theorem scope_served (p : Plane) (r : Request) : p.Scope r (p.served r) where
  memory changed := by
    rcases p.bus_served_cases r with ⟨addr, stores, -⟩ | ⟨-, same⟩
    · exact ⟨addr, stores⟩
    · exact absurd (congrArg Bus.memory same) changed
  byte addr stores loc changed := by
    rcases p.bus_served_cases r with ⟨addr', stores', same⟩ | ⟨none, -⟩
    · obtain rfl := stores.unique stores'
      exact same.byte loc changed
    · exact absurd stores (none addr)
  events := by
    rw [notifier_served]
    rcases r.commands_cases with ⟨addr, value, n, stores, commands⟩ |
      ⟨key, -, commands | commands⟩ | commands
    · obtain ⟨events, reported⟩ := p.machine.exists_report_after addr value n
      exact ⟨events, fun _ => ⟨addr, stores⟩, by rw [commands, reported]⟩
    all_goals exact ⟨[], fun some => absurd rfl some, by rw [commands]; rfl⟩
  registry changed := by
    rw [registry_served] at changed
    rcases r.commands_cases with ⟨addr, -, -, stores, -⟩ | ⟨key, mutes, -⟩ | commands
    · exact .inl ⟨addr, stores⟩
    · exact .inr ⟨key, mutes⟩
    · rw [commands] at changed
      exact absurd rfl changed
  muted key mutes := by
    obtain ⟨state, same⟩ := served_of_mutes mutes p
    exact ⟨_, p.machine.registry.forall₂_setState key state, same⟩
  unknown key mutes absent := by
    obtain ⟨state, same⟩ := served_of_mutes mutes p
    rw [same, Registry.setState_of_absent absent]
  slot changed := by
    by_contra other
    exact changed ((p.keeps_served r).slot other)
  run changed := by
    by_contra other
    exact changed ((p.keeps_served r).run other)
  segment changed := by
    by_contra other
    rcases changed with changed | changed
    · exact changed ((p.keeps_served r).query other)
    · exact changed ((p.keeps_served r).segments other)
  files id changed := by
    by_contra other
    obtain ⟨queries, dumps⟩ := not_or.1 other
    exact changed ((p.keeps_served r).files id queries dumps)
  isolation := by
    rcases p.bus_served_cases r with ⟨addr, -, same⟩ | ⟨-, same⟩
    · exact same.isolation
    · rw [same]
  fixed loc place := by
    rcases p.bus_served_cases r with ⟨addr, -, same⟩ | ⟨-, same⟩
    · by_contra changed
      exact not_fixed_of_locate (same.byte loc changed) place
    · rw [same]

end Plane

namespace Server

variable {s : Server} {b : UInt8} {r : Request}

/-- A byte that completes a request has it carried out at once. -/
theorem plane_receive (whole : (s.frame.push b).2 = some r) :
    (s.receive (.byte b)).2.1.plane = s.plane.served r := by
  have pushed : s.frame.push b = ((s.frame.push b).1, some r) := Prod.ext rfl whole
  simp only [receive]
  rw [pushed]
  by_cases closed : r = .shutdown
  · subst closed
    rfl
  · rw [Plane.served_of_ne closed]
    cases r with
    | shutdown => exact absurd rfl closed
    | _ => rfl

/-- Every request that a server takes keeps to its scope. -/
theorem scope_of_receive (whole : (s.frame.push b).2 = some r) :
    s.plane.Scope r (s.receive (.byte b)).2.1.plane := by
  rw [plane_receive whole]
  exact s.plane.scope_served r

/-- The last byte of a frame pokes a byte of RAM. -/
theorem scope_of_last_byte :
    (FrameBuffer.push [26, 0, 0, 0, 16] 5).2 = some (.poke 16 5) ∧
      Plane.Scope {} (.poke 16 5)
        ((⟨{}, [26, 0, 0, 0, 16]⟩ : Server).receive (.byte 5)).2.1.plane :=
  ⟨by decide, scope_of_receive (s := ⟨{}, [26, 0, 0, 0, 16]⟩) (by decide)⟩

end Server

end ConsoleBus
