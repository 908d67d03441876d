import ConsoleBus.Control.Plane
import ConsoleBus.Proofs.Delivery
import ConsoleBus.Proofs.Runs

/-!
What a request does to the plane. To the machine it is a number of commands (`Plane.machine_handle`),
the front end is never released by it (`Plane.frontend_handle`), and its answer is sent after all
that (`Plane.notifier_dispatch`). A request is carried out, or there is nothing to do, or it is
refused before it has changed anything (`Plane.handle_cases`): addresses are checked before the
first of several stores, and lengths before a segment is attached.
-/

namespace ConsoleBus

open PageTable

/-- The commands to the machine that a request amounts to. -/
def Request.commands : Request → List Command
  | .silence key => [.silence key]
  | .unsilence key => [.unsilence key]
  | .poke addr value => [.handleWrite addr value]
  | .drill addr value count => List.replicate count.toNat (.handleWrite addr value)
  | _ => []

/-- The status that says that a request was carried out, if there is one for it. -/
def Request.done? : Request → Option Status
  | .queryMemory .. => some .queryCopied
  | .dumpMemory .. => some .dumpWritten
  | .poke .. => some .byteWritten
  | .drill .. => some .drillFinished
  | .saveState _ | .loadState _ => some .deferredAccepted
  | .setSpeed _ => some .speedSet
  | .ping => some .alive
  | _ => none

theorem Request.code_of_done? {r : Request} {s : Status} (done : r.done? = some s) :
    ¬(s.code = 16 ∨ s.code = 15) := by
  cases r <;> cases done <;> decide

/-! ### Stores through the handle -/

namespace Machine

variable {m : Machine} {specs : List HookSpec} {addr : Address} {value : UInt8}

/-- A handle refuses an address that the power-on table does not locate, and then leaves the machine
as it was. -/
theorem storeByHandle_of_error {e : MemoryError} (nowhere : powerOnWrite.locate addr = .error e)
    (m : Machine) (value : UInt8) : m.storeByHandle addr value = (.error e, m, []) := by
  simp only [storeByHandle, Bus.storeByHandle, nowhere, hear, List.foldl_nil]

theorem storeByHandle_of_ok {loc : Location} (located : powerOnWrite.locate addr = .ok loc)
    (m : Machine) (value : UInt8) : (m.storeByHandle addr value).1 = .ok () := by
  simp only [storeByHandle, Bus.storeByHandle, located]
  split <;> rfl

theorem next_of_error {e : MemoryError} (nowhere : powerOnWrite.locate addr = .error e)
    (m : Machine) (value : UInt8) : m.next (.handleWrite addr value) = m := by
  change (m.storeByHandle addr value).2.1 = m
  rw [storeByHandle_of_error nowhere]

theorem after_of_error {e : MemoryError} (nowhere : powerOnWrite.locate addr = .error e)
    (m : Machine) (value : UInt8) (n : Nat) :
    m.after (List.replicate n (.handleWrite addr value)) = m := by
  induction n with
  | zero => rfl
  | succ n ih => rwa [List.replicate_succ, after_cons, next_of_error nowhere]

/-- Stores that are refused pass the hooks by as well. -/
theorem log_of_error {e : MemoryError} (hm : m.Serves specs)
    (nowhere : powerOnWrite.locate addr = .error e) (value : UInt8) (n : Nat) :
    m.log (List.replicate n (.handleWrite addr value)) = [] := by
  have silent : m.events (.handleWrite addr value) = [] := by
    have blank : m.bus.target? addr 1 = none := by
      refine Option.eq_none_iff_forall_ne_some.2 fun loc target => ?_
      have located := (hm.isolation.locate_iff.1 (Bus.target?_eq_some_iff.1 target).1).1
      rw [nowhere] at located
      cases located
    have quiet : m.stimulus (.handleWrite addr value) = .quiet := by simp [stimulus, blank]
    rw [events, quiet, Registry.respond_quiet]
  induction n with
  | zero => rfl
  | succ n ih =>
    rw [List.replicate_succ, Machine.log, next_of_error nowhere, silent, List.nil_append]
    exact ih

end Machine

namespace Plane

section stores

variable {addr : Address}

theorem storeTimes_of_error {e : MemoryError} (nowhere : powerOnWrite.locate addr = .error e)
    (m : Machine) (value : UInt8) (n : Nat) :
    storeTimes m addr value (n + 1) = (.error e, m, []) := by
  rw [storeTimes, Machine.storeByHandle_of_error nowhere]

theorem storeTimes_of_ok {loc : Location} (located : powerOnWrite.locate addr = .ok loc)
    (m : Machine) (value : UInt8) (n : Nat) :
    (storeTimes m addr value n).1 = .ok () ∧
      (storeTimes m addr value n).2.1 = m.after (List.replicate n (.handleWrite addr value)) := by
  induction n generalizing m with
  | zero => exact ⟨rfl, rfl⟩
  | succ n ih =>
    have taken := Machine.storeByHandle_of_ok located m value
    have step : m.after (List.replicate (n + 1) (.handleWrite addr value)) =
        (m.storeByHandle addr value).2.1.after (List.replicate n (.handleWrite addr value)) := rfl
    rw [step, storeTimes]
    generalize m.storeByHandle addr value = first at taken ⊢
    obtain ⟨outcome, next, effects⟩ := first
    obtain rfl : outcome = .ok () := taken
    exact ih next

/-- Repeated stores are as many commands. -/
theorem machine_storeTimes (m : Machine) (addr : Address) (value : UInt8) (n : Nat) :
    (storeTimes m addr value n).2.1 = m.after (List.replicate n (.handleWrite addr value)) := by
  cases place : powerOnWrite.locate addr with
  | ok loc => exact (storeTimes_of_ok place m value n).2
  | error e =>
    cases n with
    | zero => rfl
    | succ n => rw [storeTimes_of_error place, Machine.after_of_error place]

/-- The address alone decides whether stores are taken, so they are refused before the first or not
at all. -/
theorem storeTimes_of_refused {m : Machine} {value : UInt8} {n : Nat} {e : MemoryError}
    (refused : (storeTimes m addr value n).1 = .error e) :
    powerOnWrite.locate addr = .error e ∧ storeTimes m addr value n = (.error e, m, []) := by
  cases n with
  | zero => cases refused
  | succ n =>
    cases place : powerOnWrite.locate addr with
    | ok loc =>
      rw [(storeTimes_of_ok place m value (n + 1)).1] at refused
      cases refused
    | error e' =>
      rw [storeTimes_of_error place] at refused ⊢
      cases refused
      exact ⟨rfl, rfl⟩

end stores

end Plane

/-! ### Segments -/

theorem Host.exists_segment (h : Host) (key : UInt8) :
    ∃ bytes, (h.addSegment key).segment? key = some bytes := by
  cases found : h.segment? key with
  | some bytes => exact ⟨bytes, by simp only [addSegment, found]⟩
  | none =>
    have absent : (h.segments.find? fun s => s.1 == key) = none := Option.map_eq_none_iff.1 found
    exact ⟨List.replicate segmentSize 0, by simp [addSegment, segment?, absent]⟩

/-- A segment that takes no bytes leaves everything as it was. -/
theorem Segment.write_of_error {s : Segment} {bytes : Bytes} {h : Host} {e : IoError}
    (failed : (s.write bytes h).1 = .error e) : (s.write bytes h).2 = h := by
  unfold write at failed ⊢
  split
  · split
    · next found => simp [*] at failed
    · rfl
  · next backing => simp [backing] at failed
  · rfl

namespace QueryBuffer

theorem provider_store (q : QueryBuffer) (key : UInt8) (bytes : Bytes) (h : Host) :
    (q.store key bytes h).2.1.provider = q.provider := by
  unfold store
  split
  · rfl
  · split <;> rfl

theorem provider_release (q : QueryBuffer) (h : Host) :
    (q.release h).1.provider = q.provider := by
  unfold release
  split <;> rfl

/-- Segments in memory can always be attached and then take bytes, so a copy fails only where
nothing has to be attached. -/
theorem store_of_error {q : QueryBuffer} (inMemory : q.provider = .memory) {key : UInt8}
    {bytes : Bytes} {h : Host} {e : QueryError} (failed : (q.store key bytes h).1 = .error e) :
    (q.store key bytes h).2 = (q, h) := by
  obtain ⟨provider, attached⟩ := q
  subst inMemory
  unfold store at failed ⊢
  generalize checkLength bytes.length = fits at failed ⊢
  cases fits with
  | error e => rfl
  | ok len =>
    cases attached with
    | none =>
      obtain ⟨old, found⟩ := h.exists_segment key
      simp [ensure, SegmentProvider.attach, Segment.write, found, Except.mapError] at failed
    | some segment =>
      simp only [ensure] at failed ⊢
      cases outcome : (segment.write bytes h).1 with
      | ok _ => simp [outcome, Except.mapError] at failed
      | error e => rw [Segment.write_of_error outcome]

end QueryBuffer

namespace Plane

variable {p : Plane} {r : Request} {specs : List HookSpec}

/-- The answer to a request. -/
def answer (p : Plane) (r : Request) : Option Status := answerOf (p.handle r).answer

/-! ### What a request changes -/

theorem statuses_eq (p : Plane) (ss : List Status) :
    p.statuses ss = { p with machine :=
      { p.machine with notifier := p.machine.notifier.sendAll (ss.map .status) } } := by
  induction ss generalizing p with
  | nil => rfl
  | cons s ss ih => exact ih (p.status s)

theorem storeAndAnswer_plane (p : Plane) (addr : Address) (value : UInt8) (n : Nat) (done : Status) :
    (p.storeAndAnswer addr value n done).plane =
      { p with machine := p.machine.after (List.replicate n (.handleWrite addr value)) } := by
  rw [← machine_storeTimes]
  rfl

/-- A copy to the segment changes the segment at most. -/
theorem copyToSegment_plane (p : Plane) (start : Address) (len : Nat) (key : UInt8) :
    ∃ query host, query.provider = p.query.provider ∧
      (p.copyToSegment start len key).plane = { p with query := query, host := host } := by
  unfold copyToSegment
  split
  · exact ⟨_, _, rfl, rfl⟩
  · split
    · exact ⟨_, _, rfl, rfl⟩
    · next bytes read =>
      have same := p.query.provider_store key bytes p.host
      split <;> next stored => exact ⟨_, _, by rwa [stored] at same, rfl⟩

/-- A dump changes the files at most. -/
theorem dump_plane (p : Plane) (start : Address) (len : Nat) (path : Path) :
    ∃ host, (p.dump start len path).plane = { p with host := host } := by
  unfold dump
  split
  · exact ⟨_, rfl⟩
  · split <;> exact ⟨_, rfl⟩

theorem defer_plane (p : Plane) (d : Deferred) :
    (p.defer d).plane = { p with slot := (p.slot.request d).2 } := by
  unfold defer
  split <;> next taken => rw [taken]

/-- To the machine a request is its commands. -/
theorem machine_handle (p : Plane) (r : Request) :
    (p.handle r).plane.machine = p.machine.after r.commands := by
  cases r with
  | queryMemory start len key =>
    obtain ⟨query, host, -, after⟩ := p.copyToSegment_plane start len.toNat key
    exact (congrArg machine after).trans rfl
  | dumpMemory start len path =>
    obtain ⟨host, after⟩ := p.dump_plane start len.toNat path
    exact (congrArg machine after).trans rfl
  | poke addr value => exact congrArg machine (p.storeAndAnswer_plane addr value 1 .byteWritten)
  | drill addr value count =>
    exact congrArg machine (p.storeAndAnswer_plane addr value count.toNat .drillFinished)
  | saveState path => exact (congrArg machine (p.defer_plane ⟨.save, path⟩)).trans rfl
  | loadState path => exact (congrArg machine (p.defer_plane ⟨.load, path⟩)).trans rfl
  | _ => rfl

/-- Segments go on coming from the same place. -/
theorem provider_handle (p : Plane) (r : Request) :
    (p.handle r).plane.query.provider = p.query.provider := by
  cases r with
  | queryMemory start len key =>
    obtain ⟨query, host, same, after⟩ := p.copyToSegment_plane start len.toNat key
    exact (congrArg (fun q => q.query.provider) after).trans same
  | dumpMemory start len path =>
    obtain ⟨host, after⟩ := p.dump_plane start len.toNat path
    exact (congrArg (fun q => q.query.provider) after).trans rfl
  | releaseQuery => exact p.query.provider_release p.host
  | saveState path =>
    exact (congrArg (fun q => q.query.provider) (p.defer_plane ⟨.save, path⟩)).trans rfl
  | loadState path =>
    exact (congrArg (fun q => q.query.provider) (p.defer_plane ⟨.load, path⟩)).trans rfl
  | _ => rfl

/-- Whatever the front end hears of a request, it is not released by it. -/
theorem frontend_handle (p : Plane) (r : Request) :
    ∃ heard : List FrontendEvent, .released ∉ heard ∧
      (p.handle r).plane.frontend.events = p.frontend.events ++ heard := by
  have unheard (same : (p.handle r).plane.frontend = p.frontend) :
      ∃ heard : List FrontendEvent, .released ∉ heard ∧
        (p.handle r).plane.frontend.events = p.frontend.events ++ heard :=
    ⟨[], List.not_mem_nil, by rw [same, List.append_nil]⟩
  cases r with
  | queryMemory start len key =>
    obtain ⟨query, host, -, after⟩ := p.copyToSegment_plane start len.toNat key
    exact unheard ((congrArg frontend after).trans rfl)
  | dumpMemory start len path =>
    obtain ⟨host, after⟩ := p.dump_plane start len.toNat path
    exact unheard ((congrArg frontend after).trans rfl)
  | saveState path => exact unheard ((congrArg frontend (p.defer_plane ⟨.save, path⟩)).trans rfl)
  | loadState path => exact unheard ((congrArg frontend (p.defer_plane ⟨.load, path⟩)).trans rfl)
  | snapshot id => exact ⟨[.snapshot id], by simp, Frontend.events_log ..⟩
  | clearSnapshot => exact ⟨[.snapshot 0], by simp, Frontend.events_log ..⟩
  | startAudioRecording path => exact ⟨[.audioStarted path], by simp, Frontend.events_log ..⟩
  | stopAudioRecording => exact ⟨[.audioStopped], by simp, Frontend.events_log ..⟩
  | setSpeed percent => exact ⟨[.speed _], by simp, Frontend.events_log ..⟩
  | _ => exact unheard rfl

/-- The hooks report first, and then the request is answered. -/
theorem notifier_dispatch (serves : p.machine.Serves specs) (r : Request) :
    (p.dispatch r).1.machine.notifier = p.machine.notifier.sendAll
      ((p.machine.log r.commands).map .hookFired ++ (p.answer r).toList.map .status) := by
  rw [Notifier.sendAll_append, ← Notifier.report_eq_sendAll, ← Machine.notifier_after serves,
    ← machine_handle]
  exact congrArg (fun q => q.machine.notifier) (statuses_eq _ _)

/-! ### Answers -/

/-- The plane and the bus are as they were. -/
def Untouched (p : Plane) (h : Handled) : Prop := h.plane = p ∧ h.effects = []

theorem copyToSegment_cases (inMemory : p.query.provider = .memory) (start : Address) (len : Nat)
    (key : UInt8) :
    (p.copyToSegment start len key).answer = .ok (some .queryCopied) ∨
      (∃ e, (p.copyToSegment start len key).answer = .error e) ∧
        p.Untouched (p.copyToSegment start len key) := by
  unfold copyToSegment
  split
  · exact .inr ⟨⟨_, rfl⟩, rfl, rfl⟩
  · split
    · exact .inr ⟨⟨_, rfl⟩, rfl, rfl⟩
    · split
      · next failed =>
        have kept := QueryBuffer.store_of_error inMemory (congrArg Prod.fst failed)
        rw [failed] at kept
        cases kept
        exact .inr ⟨⟨_, rfl⟩, rfl, rfl⟩
      · exact .inl rfl

theorem dump_cases (p : Plane) (start : Address) (len : Nat) (path : Path) :
    (p.dump start len path).answer = .ok (some .dumpWritten) ∨
      (∃ e, (p.dump start len path).answer = .error e) ∧ p.Untouched (p.dump start len path) := by
  unfold dump
  split
  · exact .inr ⟨⟨_, rfl⟩, rfl, rfl⟩
  · split
    · exact .inr ⟨⟨_, rfl⟩, rfl, rfl⟩
    · exact .inl rfl

theorem storeAndAnswer_cases (p : Plane) (addr : Address) (value : UInt8) (n : Nat)
    (done : Status) :
    (p.storeAndAnswer addr value n done).answer = .ok (some done) ∨
      (∃ e, (p.storeAndAnswer addr value n done).answer = .error e) ∧
        p.Untouched (p.storeAndAnswer addr value n done) ∧
        ∃ cause, powerOnWrite.locate addr = .error cause := by
  unfold storeAndAnswer
  cases outcome : (storeTimes p.machine addr value n).1 with
  | ok _ => exact .inl (by simp only [outcome])
  | error cause =>
    obtain ⟨nowhere, refused⟩ := storeTimes_of_refused outcome
    rw [refused]
    exact .inr ⟨⟨_, rfl⟩, ⟨rfl, rfl⟩, cause, nowhere⟩

theorem defer_cases (p : Plane) (d : Deferred) :
    (p.defer d).answer = .ok (some .deferredAccepted) ∨
      (p.defer d).answer = .ok (some .deferredRejected) ∧ p.Untouched (p.defer d) := by
  unfold defer Slot.request
  split
  · exact .inl rfl
  · next slot full =>
    obtain rfl : p.slot = slot := by
      split at full
      · exact congrArg Prod.snd full
      · cases full
    exact .inr ⟨rfl, rfl, rfl⟩

/-- A request is refused, or turned away from the slot, and nothing has changed. -/
def Refuses (p : Plane) (r : Request) : Prop :=
  (p.answer r = some .failed ∨ p.answer r = some .deferredRejected) ∧
    p.Untouched (p.handle r) ∧ p.machine.log r.commands = []

/-- The answers to a request: it was carried out, there was nothing to do, or it was refused. -/
theorem handle_cases (serves : p.machine.Serves specs) (inMemory : p.query.provider = .memory)
    (r : Request) :
    p.answer r = r.done? ∨
      r.done? = none ∧ (p.answer r = some .alreadyPaused ∨ p.answer r = some .alreadyRunning) ∨
      p.Refuses r := by
  -- errors are answered alike, whichever they are
  have failed {h : Handled} (same : p.handle r = h) (refused : ∃ e, h.answer = .error e)
      (untouched : p.Untouched h) (silent : p.machine.log r.commands = []) : p.Refuses r := by
    obtain ⟨e, refused⟩ := refused
    refine ⟨.inl ?_, same ▸ untouched, silent⟩
    rw [answer, same, refused]
    rfl
  cases r with
  | queryMemory start len key =>
    rcases copyToSegment_cases inMemory start len.toNat key with done | ⟨refused, untouched⟩
    · exact .inl (congrArg answerOf done)
    · exact .inr (.inr (failed rfl refused untouched rfl))
  | dumpMemory start len path =>
    rcases p.dump_cases start len.toNat path with done | ⟨refused, untouched⟩
    · exact .inl (congrArg answerOf done)
    · exact .inr (.inr (failed rfl refused untouched rfl))
  | poke addr value =>
    rcases p.storeAndAnswer_cases addr value 1 .byteWritten with
      done | ⟨refused, untouched, cause, nowhere⟩
    · exact .inl (congrArg answerOf done)
    · exact .inr (.inr (failed rfl refused untouched
        (Machine.log_of_error serves nowhere value 1)))
  | drill addr value count =>
    rcases p.storeAndAnswer_cases addr value count.toNat .drillFinished with
      done | ⟨refused, untouched, cause, nowhere⟩
    · exact .inl (congrArg answerOf done)
    · exact .inr (.inr (failed rfl refused untouched
        (Machine.log_of_error serves nowhere value count.toNat)))
  | saveState path =>
    rcases p.defer_cases ⟨.save, path⟩ with done | ⟨rejected, untouched⟩
    · exact .inl (congrArg answerOf done)
    · exact .inr (.inr ⟨.inr (congrArg answerOf rejected), untouched, rfl⟩)
  | loadState path =>
    rcases p.defer_cases ⟨.load, path⟩ with done | ⟨rejected, untouched⟩
    · exact .inl (congrArg answerOf done)
    · exact .inr (.inr ⟨.inr (congrArg answerOf rejected), untouched, rfl⟩)
  | pause =>
    have answered : p.answer .pause = if p.run.requestPause.1 then none else some .alreadyPaused :=
      rfl
    cases changed : p.run.requestPause.1 with
    | false => exact .inr (.inl ⟨rfl, .inl (by rw [answered, changed]; rfl)⟩)
    | true => exact .inl (by rw [answered, changed]; rfl)
  | resume =>
    have answered : p.answer .resume =
        if p.run.requestResume.1 then none else some .alreadyRunning := rfl
    cases changed : p.run.requestResume.1 with
    | false => exact .inr (.inl ⟨rfl, .inr (by rw [answered, changed]; rfl)⟩)
    | true => exact .inl (by rw [answered, changed]; rfl)
  | _ => exact .inl rfl

end Plane

end ConsoleBus
