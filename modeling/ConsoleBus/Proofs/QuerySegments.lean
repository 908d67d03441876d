import ConsoleBus.Control.Execution
import ConsoleBus.Proofs.HandleAccess
import ConsoleBus.Proofs.RequestScope
import Mathlib.Data.List.DropRight

/-!
The segment over the requests of a server. What others can see of the segment is a function of the
copies since it was released last (`Shown`): the first of them gives the key, and each byte is that
of the latest copy that is long enough (`overlaid`). One more copy keeps that up (`Shown.store`), a
release starts anew, and everything else leaves the segment alone; so it holds all along
(`QueryHistory.shown`). A query under way can therefore fail by its length or by its range only, and
then it touches nothing (`QueryHistory.segment_of_copies`).
-/

namespace ConsoleBus

open PageTable

/-! ### Copies -/

/-- What a query copied to the segment. -/
structure SegmentCopy where
  key : UInt8
  bytes : Bytes
  deriving DecidableEq, Repr

/-- The byte at an index of zeros on which copies are laid, one after the other, all from the
start on. -/
def overlaid (copies : List SegmentCopy) (i : Nat) : UInt8 :=
  (copies.reverse.findSome? fun c => c.bytes[i]?).getD 0

/-- The bytes of a segment to which these copies were made. -/
def segmentBytes (copies : List SegmentCopy) : Bytes :=
  (List.range segmentSize).map (overlaid copies)

theorem segmentBytes_nil : segmentBytes [] = List.replicate segmentSize 0 := by
  have zero : overlaid [] = fun _ => 0 := rfl
  rw [segmentBytes, zero, List.map_const', List.length_range]

@[simp] theorem length_segmentBytes (copies : List SegmentCopy) :
    (segmentBytes copies).length = segmentSize := by
  rw [segmentBytes, List.length_map, List.length_range]

theorem overlaid_concat (copies : List SegmentCopy) (c : SegmentCopy) (i : Nat) :
    overlaid (copies ++ [c]) i = (c.bytes[i]?).getD (overlaid copies i) := by
  rw [overlaid, List.reverse_concat, List.findSome?_cons]
  cases c.bytes[i]? <;> rfl

/-- One more copy replaces as many bytes as it has. -/
theorem segmentBytes_concat (copies : List SegmentCopy) {c : SegmentCopy}
    (short : c.bytes.length ≤ segmentSize) :
    segmentBytes (copies ++ [c]) = c.bytes ++ (segmentBytes copies).drop c.bytes.length := by
  refine List.ext_getElem ?_ fun i hi _ => ?_
  · rw [List.length_append, List.length_drop, length_segmentBytes, length_segmentBytes]
    omega
  · have byte : (segmentBytes (copies ++ [c]))[i] = (c.bytes[i]?).getD (overlaid copies i) := by
      simp only [segmentBytes, List.getElem_map, List.getElem_range, overlaid_concat]
    rw [byte, List.getElem_append]
    split
    · next early => rw [List.getElem?_eq_getElem early, Option.getD_some]
    · next late =>
      rw [List.getElem?_eq_none (Nat.le_of_not_lt late), Option.getD_none, List.getElem_drop]
      simp only [segmentBytes, List.getElem_map, List.getElem_range]
      congr 1
      omega

/-! ### The segment in memory -/

/-- The segment is the one that these copies make, and there is no other. -/
structure Shown (copies : List SegmentCopy) (q : QueryBuffer) (h : Host) : Prop where
  provider : q.provider = .memory
  attached : q.attached = copies.head?.map fun c => ⟨c.key, .memory⟩
  segments : h.segments = (copies.head?.map fun c => (c.key, segmentBytes copies)).toList

namespace Shown

variable {copies : List SegmentCopy} {q q' : QueryBuffer} {h h' : Host}

/-- Nobody has touched the segment. -/
theorem of_same (shown : Shown copies q h) (query : q' = q) (segments : h'.segments = h.segments) :
    Shown copies q' h' :=
  ⟨query ▸ shown.provider, query ▸ shown.attached, segments.trans shown.segments⟩

theorem of_no_copy (shown : Shown copies q h) {copy? : Option SegmentCopy} (none : copy? = none)
    (query : q' = q) (segments : h'.segments = h.segments) :
    Shown (copies ++ copy?.toList) q' h' := by
  rw [none, Option.toList_none, List.append_nil]
  exact shown.of_same query segments

/-- Writing to the one segment there is. -/
theorem write_eq {key : UInt8} {old : Bytes} (only : h.segments = [(key, old)]) (bytes : Bytes) :
    Segment.write ⟨key, .memory⟩ bytes h =
      (.ok (), { h with segments := [(key, bytes ++ old.drop bytes.length)] }) := by
  have found : h.segment? key = some old := by simp [Host.segment?, only]
  simp only [Segment.write, found, Host.writeSegment, only, List.map_cons, List.map_nil, if_pos]

/-- Bytes that a segment can hold are always copied. -/
theorem store (shown : Shown copies q h) (key : UInt8) {bytes : Bytes}
    (short : bytes.length ≤ segmentSize) :
    (q.store key bytes h).1 = .ok () ∧
      Shown (copies ++ [⟨key, bytes⟩]) (q.store key bytes h).2.1 (q.store key bytes h).2.2 := by
  obtain ⟨provider, attached⟩ := q
  obtain ⟨inMemory, attachedBy, segments⟩ := shown
  simp only at inMemory attachedBy
  subst inMemory attachedBy
  have fits : QueryBuffer.checkLength bytes.length = .ok bytes.length := if_pos short
  have laid := segmentBytes_concat copies (c := ⟨key, bytes⟩) short
  cases copies with
  | nil =>
    -- the segment is made first, filled with zeros
    have made : (h.addSegment key).segments = [(key, segmentBytes [])] := by
      have none : h.segment? key = none := by simp [Host.segment?, segments]
      simp [Host.addSegment, none, segments, segmentBytes_nil]
    simp only [List.nil_append] at laid ⊢
    simp only [QueryBuffer.store, fits, QueryBuffer.ensure, SegmentProvider.attach,
      List.head?_nil, Option.map_none, write_eq made, ← laid]
    exact ⟨rfl, rfl, rfl, rfl⟩
  | cons c cs =>
    simp only [List.head?_cons, Option.map_some, Option.toList_some] at segments
    simp only [QueryBuffer.store, fits, QueryBuffer.ensure, List.head?_cons, Option.map_some,
      write_eq segments, ← laid]
    exact ⟨rfl, rfl, rfl, rfl⟩

/-- A release leaves no segment at all. -/
theorem release (shown : Shown copies q h) : Shown [] (q.release h).1 (q.release h).2 := by
  obtain ⟨provider, attached⟩ := q
  obtain ⟨inMemory, attachedBy, segments⟩ := shown
  simp only at inMemory attachedBy
  subst inMemory attachedBy
  cases copies with
  | nil => exact ⟨rfl, rfl, segments⟩
  | cons c cs =>
    have removed : (h.removeSegment c.key).segments = [] := by
      simp [Host.removeSegment, segments]
    exact ⟨rfl, rfl, removed⟩

end Shown

/-! ### Queries -/

/-- What can be read is what the table has a range for, and as long as it was asked for. -/
theorem Memory.view_isOk_iff (m : Memory) (start : Address) (len : Nat) :
    (∃ bytes, m.view start len = .ok bytes) ↔
      ∃ range, powerOnRead.resolveRange start len = .ok range := by
  rw [Memory.view, Memory.readVia_eq]
  cases powerOnRead.resolveRange start len with
  | ok range => exact ⟨fun _ => ⟨range, rfl⟩, fun _ => ⟨_, rfl⟩⟩
  | error e =>
    constructor
    · rintro ⟨_, ⟨⟩⟩
    · rintro ⟨_, ⟨⟩⟩

theorem Memory.length_of_view {m : Memory} {start : Address} {len : Nat} {bytes : Bytes}
    (read : m.view start len = .ok bytes) : bytes.length = len := by
  obtain ⟨-, -, -, rfl⟩ := Bus.view_eq_ok read
  rw [List.length_map, List.length_range]

/-- What is read where each region is filled with one byte. -/
theorem Memory.view_filled {start : Address} {len : Nat} {range : Range} (fill : Region → UInt8)
    (found : powerOnRead.resolveRange start len = .ok range) :
    (filled fill).view start len = .ok (List.replicate len (fill range.region)) := by
  obtain ⟨bytes, read⟩ := ((filled fill).view_isOk_iff start len).2 ⟨range, found⟩
  obtain ⟨located, -, -⟩ := resolveRange_eq_ok_iff.1 found
  obtain ⟨loc, located', fits, rfl⟩ := Bus.view_eq_ok read
  cases located.symm.trans located'
  have byte (i : Nat) (hi : i ∈ List.range len) :
      (filled fill).byte ⟨range.region, range.offset + i⟩ = fill range.region := by
    have inside : range.offset + i < range.region.size :=
      Nat.lt_of_lt_of_le (Nat.add_lt_add_left (List.mem_range.1 hi) _) fits
    have block : (filled fill).region range.region = .filled _ (fill range.region) := by
      cases range.region <;> rfl
    rw [Memory.byte, block, Backing.get_filled, if_pos inside]
  rw [read, List.map_congr_left byte, List.map_const', List.length_range]

namespace Plane

variable {p : Plane}

/-- The copy that a request makes: a query that is answered with status 11 copies what it reads. -/
def copied? (p : Plane) (r : Request) : Option SegmentCopy :=
  match r with
  | .queryMemory start len key =>
    if p.answer (.queryMemory start len key) = some .queryCopied then
      (p.machine.bus.memory.view start len.toNat).toOption.map (SegmentCopy.mk key)
    else none
  | _ => none

theorem copied?_of_answer {start : Address} {len : UInt32} {key : UInt8} {bytes : Bytes}
    (answered : p.answer (.queryMemory start len key) = some .queryCopied)
    (read : p.machine.bus.memory.view start len.toNat = .ok bytes) :
    p.copied? (.queryMemory start len key) = some ⟨key, bytes⟩ := by
  rw [copied?, if_pos answered, read]
  rfl

theorem copied?_of_no_answer {start : Address} {len : UInt32} {key : UInt8}
    (unanswered : p.answer (.queryMemory start len key) ≠ some .queryCopied) :
    p.copied? (.queryMemory start len key) = none := by
  rw [copied?, if_neg unanswered]

theorem copied?_of_ne {r : Request} (other : ¬ r.Queries) (p : Plane) : p.copied? r = none := by
  cases r with
  | queryMemory start len key => exact absurd (.inl ⟨start, len, key, rfl⟩) other
  | _ => rfl

/-- Everything that a query can do while the segment is the one that some copies make. -/
theorem query_cases {copies : List SegmentCopy} (shown : Shown copies p.query p.host)
    (start : Address) (len : UInt32) (key : UInt8) :
    let r : Request := .queryMemory start len key
    (∃ bytes, (len.toNat ≤ segmentSize ∧ p.machine.bus.memory.view start len.toNat = .ok bytes) ∧
        p.answer r = some .queryCopied ∧
        Shown (copies ++ [⟨key, bytes⟩]) (p.handle r).plane.query (p.handle r).plane.host) ∨
      ¬ (len.toNat ≤ segmentSize ∧ ∃ range, powerOnRead.resolveRange start len.toNat = .ok range) ∧
        p.answer r = some .failed ∧ (p.handle r).plane = p := by
  intro r
  have handled : p.handle r = p.copyToSegment start len.toNat key := rfl
  rw [answer, handled, ← p.machine.bus.memory.view_isOk_iff]
  by_cases short : len.toNat ≤ segmentSize
  · have fits : QueryBuffer.checkLength len.toNat = .ok len.toNat := if_pos short
    cases read : p.machine.bus.memory.view start len.toNat with
    | error e =>
      have refused : p.copyToSegment start len.toNat key = ⟨.error (.memory e), p, []⟩ := by
        simp only [copyToSegment, fits, read]
      rw [refused]
      refine .inr ⟨?_, rfl, rfl⟩
      rintro ⟨-, _, ⟨⟩⟩
    | ok bytes =>
      have length := Memory.length_of_view read
      obtain ⟨stored, shown⟩ := shown.store key (length ▸ short : bytes.length ≤ segmentSize)
      have copied : p.copyToSegment start len.toNat key =
          ⟨.ok (some .queryCopied), { p with
            query := (p.query.store key bytes p.host).2.1
            host := (p.query.store key bytes p.host).2.2 }, []⟩ := by
        simp only [copyToSegment, fits, read]
        generalize p.query.store key bytes p.host = outcome at stored
        obtain ⟨_, query, host⟩ := outcome
        cases stored
        rfl
      rw [copied]
      exact .inl ⟨bytes, ⟨short, rfl⟩, rfl, shown⟩
  · have refused : p.copyToSegment start len.toNat key =
        ⟨.error (.query (.tooLong len.toNat)), p, []⟩ := by
      simp only [copyToSegment, QueryBuffer.checkLength, if_neg short]
    rw [refused]
    exact .inr ⟨fun accepted => short accepted.1, rfl, rfl⟩

theorem query_dispatch (p : Plane) (r : Request) :
    (p.dispatch r).1.query = (p.handle r).plane.query ∧
      (p.dispatch r).1.host = (p.handle r).plane.host := by
  rw [dispatch_eq]
  exact ⟨rfl, rfl⟩

/-- A query stores nothing. -/
theorem bus_of_query (p : Plane) (start : Address) (len : UInt32) (key : UInt8) :
    (p.dispatch (.queryMemory start len key)).1.machine.bus = p.machine.bus := by
  rw [dispatch_eq]
  rfl

/-- A request makes its copy, if it makes one, and a release takes all copies away. -/
theorem shown_dispatch {copies : List SegmentCopy} (shown : Shown copies p.query p.host)
    (r : Request) :
    Shown (if r = .releaseQuery then [] else copies ++ (p.copied? r).toList)
      (p.dispatch r).1.query (p.dispatch r).1.host := by
  rw [(p.query_dispatch r).1, (p.query_dispatch r).2]
  by_cases queries : r.Queries
  · obtain ⟨start, len, key, rfl⟩ | rfl | rfl := queries
    · rw [if_neg nofun]
      rcases query_cases shown start len key with
        ⟨bytes, ⟨-, read⟩, answered, shown⟩ | ⟨-, answered, same⟩
      · rwa [copied?_of_answer answered read]
      · have copied := copied?_of_no_answer (fun other => nomatch answered.symm.trans other)
        exact shown.of_no_copy copied (by rw [same]) (by rw [same])
    · rw [if_pos rfl]
      exact shown.release
    · rw [if_neg nofun]
      exact shown.of_no_copy rfl rfl rfl
  · have other : r ≠ .releaseQuery := fun same => queries (.inr (.inl same))
    rw [if_neg other]
    have kept := p.keeps_handle r
    exact shown.of_no_copy (copied?_of_ne queries p) (kept.query queries) (kept.segments queries)

/-! ### Histories -/

/-- The copies of requests, each given with the plane that it met, since the segment was released
last. -/
def copies (log : List (Plane × Request)) : List SegmentCopy :=
  (log.rtakeWhile fun met => met.2 ≠ .releaseQuery).filterMap fun met => met.1.copied? met.2

theorem copies_concat (log : List (Plane × Request)) (p : Plane) (r : Request) :
    copies (log ++ [(p, r)]) =
      if r = .releaseQuery then [] else copies log ++ (p.copied? r).toList := by
  rw [copies, List.rtakeWhile_concat]
  by_cases released : r = .releaseQuery
  · simp [released]
  · simp only [released, ne_eq, not_false_eq_true, decide_true, if_true, List.filterMap_append,
      copies]
    cases copied : p.copied? r <;> simp [copied]

end Plane

/-- What a plane goes through that starts with no segment. Its server handles requests, which are
kept with the planes that they met, and in between others act on the plane, change files, and the
execution side moves, whatever processor and state store it has. -/
inductive QueryHistory : List (Plane × Request) → Plane → Prop
  | start {p : Plane} (provider : p.query.provider = .memory) (unattached : p.query.attached = none)
      (empty : p.host.segments = []) : QueryHistory [] p
  | handle {log : List (Plane × Request)} {p : Plane} (before : QueryHistory log p) (r : Request) :
      QueryHistory (log ++ [(p, r)]) (p.dispatch r).1
  | perform {log : List (Plane × Request)} {p : Plane} (before : QueryHistory log p) (a : Action) :
      QueryHistory log (p.perform a).2.1
  | files {log : List (Plane × Request)} {p : Plane} (before : QueryHistory log p)
      (files : FileTree) : QueryHistory log { p with host := { p.host with files := files } }
  | execution {log : List (Plane × Request)} {p : Plane} (before : QueryHistory log p)
      {κ σ : Type} (e : Execution κ σ) : QueryHistory log (e.step p).plane

/-- Actions have nothing to do with the segment. -/
theorem Plane.query_perform (p : Plane) (a : Action) :
    (p.perform a).2.1.query = p.query ∧ (p.perform a).2.1.host = p.host := by
  cases a with
  | _ => exact ⟨rfl, rfl⟩

/-- Nor have the moves of the execution side. -/
theorem Execution.query_step {κ σ : Type} (e : Execution κ σ) (p : Plane) :
    (e.step p).plane.query = p.query ∧ (e.step p).plane.host.segments = p.host.segments := by
  unfold Execution.step
  cases e.phase with
  | between =>
    simp only
    split <;> exact ⟨rfl, rfl⟩
  | gate phase => simp [Plane.statuses_eq]
  | deferred =>
    simp only
    split <;> exact ⟨rfl, rfl⟩
  | _ => exact ⟨rfl, rfl⟩

namespace QueryHistory

variable {log : List (Plane × Request)} {p : Plane}

/-- The segment is at any time the one that the copies since its last release make. -/
theorem shown (history : QueryHistory log p) : Shown (Plane.copies log) p.query p.host := by
  induction history with
  | start provider unattached empty => exact ⟨provider, unattached, empty⟩
  | handle _ r ih =>
    rw [Plane.copies_concat]
    exact Plane.shown_dispatch ih r
  | @perform _ p _ a ih =>
    exact ih.of_same (p.query_perform a).1 (by rw [(p.query_perform a).2])
  | files _ files ih => exact ih.of_same rfl rfl
  | @execution _ p _ _ _ e ih => exact ih.of_same (e.query_step p).1 (e.query_step p).2

/-- At any time there is at most one segment. The first copy since the last release gave it its key,
and its 128 bytes are zeros on which those copies are laid in their order, each with as many bytes
from the start on as its query asked for. A query is carried out just when it asks for at most 128
bytes and the read table has a range for them, and else it leaves the segment and everything else
alone. When the server closes, no segment is left. -/
theorem segment_of_copies (history : QueryHistory log p) :
    let copies := Plane.copies log
    (p.query.attached = copies.head?.map (fun c => ⟨c.key, .memory⟩) ∧
        p.host.segments = (copies.head?.map fun c =>
          (c.key, (List.range 128).map (overlaid copies))).toList) ∧
      (∀ start len key copy, p.copied? (.queryMemory start len key) = some copy →
        copy.key = key ∧ copy.bytes.length = len.toNat ∧
          p.machine.bus.memory.view start len.toNat = .ok copy.bytes) ∧
      (∀ start len key, p.answer (.queryMemory start len key) = some .queryCopied ↔
        len.toNat ≤ 128 ∧ ∃ range, powerOnRead.resolveRange start len.toNat = .ok range) ∧
      (∀ start len key, p.answer (.queryMemory start len key) ≠ some .queryCopied →
        (p.dispatch (.queryMemory start len key)).1.query = p.query ∧
          (p.dispatch (.queryMemory start len key)).1.host = p.host) ∧
      p.close.query.attached = none ∧ p.close.host.segments = [] := by
  intro copies
  have shown := history.shown
  refine ⟨⟨shown.attached, shown.segments⟩, ?_, ?_, ?_, shown.release.attached,
    shown.release.segments⟩
  · intro start len key copy copied
    rw [Plane.copied?] at copied
    split at copied
    · obtain ⟨bytes, read, rfl⟩ := Option.map_eq_some_iff.1 copied
      have read : p.machine.bus.memory.view start len.toNat = .ok bytes := by
        cases view : p.machine.bus.memory.view start len.toNat with
        | ok read' => simpa [view, Except.toOption] using read
        | error e => simp [view, Except.toOption] at read
      exact ⟨rfl, Memory.length_of_view read, read⟩
    · cases copied
  · intro start len key
    rcases Plane.query_cases shown start len key with
      ⟨bytes, ⟨short, read⟩, answered, -⟩ | ⟨refused, answered, -⟩
    · exact iff_of_true answered ⟨short, (Memory.view_isOk_iff ..).1 ⟨bytes, read⟩⟩
    · exact iff_of_false (by rw [answered]; decide) refused
  · intro start len key unanswered
    rw [(p.query_dispatch _).1, (p.query_dispatch _).2]
    rcases Plane.query_cases shown start len key with ⟨-, -, answered, -⟩ | ⟨-, -, same⟩
    · exact absurd answered unanswered
    · rw [same]
      exact ⟨rfl, rfl⟩

/-- Two bytes from the parallel port are laid over four from RAM, under the key of the first query
whatever the key of the second. -/
theorem second_query_overlaid :
    let memory := Memory.filled fun r => if r = .ram then 0x11 else 0x22
    let start : Plane := { machine := { bus := { memory := memory } } }
    let first : Request := .queryMemory 0x80000010 4 7
    let second : Request := .queryMemory 0x1f000000 2 9
    let p := (start.dispatch first).1
    let q := (p.dispatch second).1
    QueryHistory [(start, first), (p, second)] q ∧
      q.query.attached = some ⟨7, .memory⟩ ∧
      q.host.segments = [(7, [0x22, 0x22, 0x11, 0x11] ++ List.replicate 124 0)] := by
  intro memory start first second p q
  have before : QueryHistory [] start := .start rfl rfl rfl
  have between : QueryHistory [(start, first)] p := before.handle first
  have after : QueryHistory [(start, first), (p, second)] q := between.handle second
  have same : p.machine.bus = start.machine.bus := by
    unfold p first
    exact start.bus_of_query ..
  have ram : powerOnRead.resolveRange 0x80000010 4 = .ok ⟨.ram, 0x10, 4⟩ := by decide
  have port : powerOnRead.resolveRange 0x1f000000 2 = .ok ⟨.parallel, 0, 2⟩ := by decide
  have copied : start.copied? first = some ⟨7, List.replicate 4 0x11⟩ := by
    have answered := ((segment_of_copies before).2.2.1 0x80000010 4 7).2 ⟨by decide, _, ram⟩
    exact Plane.copied?_of_answer answered (Memory.view_filled _ ram)
  have copied' : p.copied? second = some ⟨9, List.replicate 2 0x22⟩ := by
    have answered := ((segment_of_copies between).2.2.1 0x1f000000 2 9).2 ⟨by decide, _, port⟩
    have read : p.machine.bus.memory.view 0x1f000000 2 = .ok (List.replicate 2 0x22) := by
      rw [same]
      exact Memory.view_filled _ port
    exact Plane.copied?_of_answer answered read
  have copies : Plane.copies [(start, first), (p, second)] =
      [⟨7, List.replicate 4 0x11⟩, ⟨9, List.replicate 2 0x22⟩] := by
    have log : [(start, first), (p, second)] = ([] ++ [(start, first)]) ++ [(p, second)] := rfl
    rw [log, Plane.copies_concat, Plane.copies_concat, copied, copied']
    rfl
  obtain ⟨attached, segments⟩ := (segment_of_copies after).1
  rw [copies] at attached segments
  exact ⟨after, attached, segments⟩

end QueryHistory

end ConsoleBus
