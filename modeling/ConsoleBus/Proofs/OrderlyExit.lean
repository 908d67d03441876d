import ConsoleBus.Control.Server
import ConsoleBus.Proofs.Dispatch
import ConsoleBus.Proofs.RequestStream

/-!
The end of serving. The server takes single bytes, but what it does is to read requests and dispatch
them until there is one that asks for the end, or none (`Server.serve_cases`, `Server.serve_spec`).
What there is to read depends on the bytes before the first end or failure and not on the way they
are cut (`Request.decoded_eq`). Every way out leads through the same closing of the plane
(`Server.serve_orderly`). Serving a whole source comes to the same as its steps one after the other
(`Server.takeAll_steps`).
-/

namespace ConsoleBus

/-! ### What can be read -/

/-- The requests that bytes complete, the first of them together with the frame under way. -/
def FrameBuffer.requests (frame : FrameBuffer) : Bytes → List Request
  | [] => []
  | b :: bs =>
    match frame.push b with
    | (frame, some r) => r :: requests frame bs
    | (frame, none) => requests frame bs

/-- The bytes up to the first end or failure. -/
def Source.readable : Source → Bytes
  | [] => []
  | .data [] :: _ => []
  | .data (b :: bs) :: s => b :: bs ++ readable s
  | .fault e :: s => if e.kind = .interrupted then readable s else []

/-- The requests that are read from a source, up to its first end or failure. -/
def Request.decoded (s : Source) : List Request :=
  (readAll s).1.filterMap fun answer => answer.toOption.join

theorem Source.readable_putBack (rest : Bytes) (s : Source) :
    (putBack rest s).readable = rest ++ s.readable := by
  cases rest with
  | nil => rfl
  | cons b bs => rfl

namespace FrameBuffer

/-- There is no request at the end of the bytes. -/
theorem atEnd_ne (frame : FrameBuffer) (r : Request) : frame.atEnd ≠ .ok (some r) := by
  cases frame <;> exact nofun

theorem requests_of_pushed {frame frame' : FrameBuffer} {bytes rest : Bytes} {r : Request}
    (pushed : frame.pushAll bytes = (frame', some r, rest)) (more : Bytes) :
    frame.requests (bytes ++ more) = r :: frame'.requests (rest ++ more) := by
  induction bytes generalizing frame with
  | nil => cases pushed
  | cons b bs ih =>
    rw [pushAll] at pushed
    rw [List.cons_append, requests]
    generalize frame.push b = first at pushed ⊢
    obtain ⟨next, _ | found⟩ := first
    · exact ih pushed
    · cases pushed
      rfl

theorem requests_of_open {frame frame' : FrameBuffer} {bytes rest : Bytes}
    (pushed : frame.pushAll bytes = (frame', none, rest)) (more : Bytes) :
    frame.requests (bytes ++ more) = frame'.requests more := by
  induction bytes generalizing frame with
  | nil =>
    cases pushed
    rfl
  | cons b bs ih =>
    rw [pushAll] at pushed
    rw [List.cons_append, requests]
    generalize frame.push b = first at pushed ⊢
    obtain ⟨next, _ | found⟩ := first
    · exact ih pushed
    · cases pushed

end FrameBuffer

namespace Request

/-- A read gives the first request of the bytes that can be read, if there is one, and leaves what
follows its frame. -/
theorem readFrom_cases (frame : FrameBuffer) (source : Source) :
    (∃ r taken rest, readFrom frame source = (.ok (some r), rest) ∧
        source.bytes = taken ++ rest.bytes ∧ ofFrame? (frame ++ taken) = some r ∧
        frame.requests source.readable = r :: FrameBuffer.requests [] rest.readable) ∨
      (∃ answer rest, readFrom frame source = (answer, rest) ∧ (∀ r, answer ≠ .ok (some r)) ∧
        frame.requests source.readable = []) := by
  induction source generalizing frame with
  | nil => exact .inr ⟨_, _, rfl, frame.atEnd_ne, rfl⟩
  | cons chunk source ih =>
    rw [Source.bytes_cons]
    cases chunk with
    | fault e =>
      rw [readFrom, Source.readable, Source.chunkBytes, List.nil_append]
      by_cases again : e.kind = .interrupted
      · rw [if_pos again, if_pos again]
        exact ih frame
      · rw [if_neg again, if_neg again]
        refine .inr ⟨_, _, rfl, ?_, rfl⟩
        rintro r ⟨⟩
    | data bytes =>
      cases bytes with
      | nil => exact .inr ⟨_, _, rfl, frame.atEnd_ne, rfl⟩
      | cons b bs =>
        rw [readFrom, Source.readable, Source.chunkBytes]
        rcases frame.pushAll_spec (b :: bs) with
          ⟨r, taken, rest, pushed, whole, read⟩ | ⟨pushed, -⟩
        · refine .inl ⟨r, taken, Source.putBack rest source, by rw [pushed], ?_, read, ?_⟩
          · rw [Source.bytes_putBack, whole, List.append_assoc]
          · rw [FrameBuffer.requests_of_pushed pushed, Source.readable_putBack]
        · rw [pushed, FrameBuffer.requests_of_open pushed]
          rcases ih (frame ++ b :: bs) with
            ⟨r, taken, rest, answer, bytes, read, later⟩ | ⟨answer, rest, read, other, none⟩
          · refine .inl ⟨r, b :: bs ++ taken, rest, answer, ?_, ?_, later⟩
            · rw [bytes, List.append_assoc]
            · rwa [← List.append_assoc]
          · exact .inr ⟨answer, rest, read, other, none⟩

variable {r : Request} {source rest : Source}

theorem requests_of_read (read : readFrom [] source = (.ok (some r), rest)) :
    (∃ frame, r.encode = .ok frame ∧ source.bytes = frame ++ rest.bytes) ∧
      FrameBuffer.requests [] source.readable = r :: FrameBuffer.requests [] rest.readable := by
  rcases readFrom_cases [] source with ⟨r', taken, rest', read', bytes, framed, found⟩ |
    ⟨answer, rest', read', other, -⟩
  · cases read'.symm.trans read
    exact ⟨⟨taken, encode_eq_ok_iff.2 framed, bytes⟩, found⟩
  · cases read'.symm.trans read
    exact absurd rfl (other r)

theorem requests_of_no_read {answer : Except DecodeError (Option Request)}
    (read : readFrom [] source = (answer, rest)) (other : ∀ r, answer ≠ .ok (some r)) :
    FrameBuffer.requests [] source.readable = [] := by
  rcases readFrom_cases [] source with ⟨r, -, rest', read', -, -, -⟩ | ⟨-, -, -, -, none⟩
  · cases read'.symm.trans read
    exact absurd rfl (other r)
  · exact none

theorem length_requests_le (source : Source) :
    (FrameBuffer.requests [] source.readable).length ≤ source.bytes.length := by
  generalize listed : FrameBuffer.requests [] source.readable = requests
  induction requests generalizing source with
  | nil => exact Nat.zero_le _
  | cons r requests ih =>
    rcases readFrom_cases [] source with
      ⟨r', taken, rest, -, bytes, framed, found⟩ | ⟨-, -, -, -, none⟩
    · rw [listed] at found
      obtain ⟨rfl, rest_listed⟩ := List.cons_eq_cons.1 found
      have pos := List.length_pos_iff.2 (ne_nil_of_ofFrame? framed)
      have fewer := ih rest rest_listed.symm
      rw [bytes, List.length_append, List.length_cons]
      rw [List.nil_append] at pos
      omega
    · rw [listed] at none
      cases none

/-- If more answers are asked for than there are requests, all the requests are among them. -/
theorem requests_of_readUpTo {source : Source} {requests : List Request} {limit : Nat}
    (listed : FrameBuffer.requests [] source.readable = requests) (enough : requests.length < limit) :
    (readUpTo limit source).1.filterMap (fun answer => answer.toOption.join) = requests := by
  induction requests generalizing source limit with
  | nil =>
    obtain ⟨limit, rfl⟩ := Nat.exists_eq_succ_of_ne_zero (Nat.ne_of_gt enough)
    rcases readFrom_cases [] source with ⟨r, -, rest, -, -, -, found⟩ |
      ⟨answer, rest, last, other, -⟩
    · rw [listed] at found
      cases found
    · have read : read source = (answer, rest) := last
      rw [readUpTo, read]
      rcases answer with _ | _ | r
      · rfl
      · rfl
      · exact absurd rfl (other r)
  | cons r requests ih =>
    obtain ⟨limit, rfl⟩ := Nat.exists_eq_succ_of_ne_zero (Nat.ne_of_gt (Nat.zero_lt_of_lt enough))
    rcases readFrom_cases [] source with ⟨r', -, rest, first, -, -, found⟩ | ⟨-, -, -, -, none⟩
    · rw [listed] at found
      obtain ⟨rfl, rest_listed⟩ := List.cons_eq_cons.1 found
      have read : read source = (.ok (some r), rest) := first
      rw [readUpTo, read]
      exact congrArg (r :: ·) (ih rest_listed.symm (Nat.lt_of_succ_lt_succ enough))
    · rw [listed] at none
      cases none

/-- How the bytes are cut makes no difference to what is read. -/
theorem decoded_eq (source : Source) :
    decoded source = FrameBuffer.requests [] source.readable :=
  requests_of_readUpTo rfl (Nat.lt_succ_of_le (length_requests_le source))

end Request

/-! ### Serving -/

/-- Dispatches requests one after the other. -/
def Plane.dispatchAll (p : Plane) : List Request → Plane × List Effect
  | [] => (p, [])
  | r :: requests =>
    let (p, effects) := p.dispatch r
    let (p, more) := p.dispatchAll requests
    (p, effects ++ more)

/-- Serving that begins with these effects. -/
def Served.after (effects : List Effect) (served : Served) : Served :=
  { served with effects := effects ++ served.effects }

namespace Server

variable {p : Plane} {frame frame' : FrameBuffer} {bytes rest : Bytes} {source left : Source}
  {r : Request}

/-- Goes on with a source when bytes before it have been taken. -/
def goOn (source : Source) : Option ServerExit × Server × List Effect × Bytes → Served
  | (some exit, s, effects, rest) => ⟨exit, s, effects, Source.putBack rest source⟩
  | (none, s, effects, _) => (s.serve source).after effects

theorem serve_putBack (s : Server) (bytes : Bytes) (source : Source) :
    s.serve (Source.putBack bytes source) = goOn source (s.receiveAll bytes) := by
  cases bytes with
  | nil => rfl
  | cons b bs =>
    change s.serve (.data (b :: bs) :: source) = _
    rw [serve]
    rcases s.receiveAll (b :: bs) with ⟨_ | exit, s', effects, rest⟩ <;> rfl

/-! #### Bytes -/

variable {b : UInt8} {bs : Bytes}

theorem receiveAll_of_none (pushed : frame.push b = (frame', none)) :
    receiveAll ⟨p, frame⟩ (b :: bs) = receiveAll ⟨p, frame'⟩ bs := by
  simp only [receiveAll, receive, pushed, List.nil_append]

theorem receiveAll_of_request (pushed : frame.push b = (frame', some r)) (other : r ≠ .shutdown) :
    receiveAll ⟨p, frame⟩ (b :: bs) =
      (let (exit, s, effects, rest) := receiveAll ⟨(p.dispatch r).1, frame'⟩ bs
       (exit, s, (p.dispatch r).2 ++ effects, rest)) := by
  simp only [receiveAll, receive, pushed]

/-- Bytes that complete no frame are kept. -/
theorem receiveAll_of_open (pushed : frame.pushAll bytes = (frame', none, rest)) :
    receiveAll ⟨p, frame⟩ bytes = (none, ⟨p, frame'⟩, [], []) := by
  induction bytes generalizing frame with
  | nil =>
    cases pushed
    rfl
  | cons b bs ih =>
    rw [FrameBuffer.pushAll] at pushed
    cases first : frame.push b with
    | mk next found =>
    cases found with
    | none =>
      rw [first] at pushed
      rw [receiveAll_of_none first, ih pushed]
    | some r =>
      rw [first] at pushed
      cases pushed

/-- A request that is not the last one is dispatched, and the rest comes after it. -/
theorem goOn_of_request (pushed : frame.pushAll bytes = (frame', some r, rest))
    (other : r ≠ .shutdown) (source : Source) :
    goOn source (receiveAll ⟨p, frame⟩ bytes) =
      (goOn source (receiveAll ⟨(p.dispatch r).1, frame'⟩ rest)).after (p.dispatch r).2 := by
  induction bytes generalizing frame with
  | nil => cases pushed
  | cons b bs ih =>
    rw [FrameBuffer.pushAll] at pushed
    rcases first : frame.push b with ⟨next, _ | found⟩
    · rw [first] at pushed
      rw [receiveAll_of_none first, ih pushed]
    · rw [first] at pushed
      cases pushed
      rw [receiveAll_of_request first other]
      rcases receiveAll ⟨(p.dispatch r).1, frame'⟩ rest with ⟨_ | exit, s, effects, rest⟩
      · simp [goOn, Served.after]
      · rfl

theorem receiveAll_of_shutdown (pushed : frame.pushAll bytes = (frame', some .shutdown, rest)) :
    receiveAll ⟨p, frame⟩ bytes = (some .shutdown, ⟨p.close, frame'⟩, [], rest) := by
  induction bytes generalizing frame with
  | nil => cases pushed
  | cons b bs ih =>
    rw [FrameBuffer.pushAll] at pushed
    rcases first : frame.push b with ⟨next, _ | found⟩
    · rw [first] at pushed
      rw [receiveAll_of_none first, ih pushed]
    · rw [first] at pushed
      cases pushed
      simp only [receiveAll, receive, first]
      rfl

/-! #### Requests -/

/-- One turn of serving: a request is read and dispatched, or it ends the matter, or there is none.
-/
theorem serve_cases (p : Plane) (frame : FrameBuffer) (source : Source) :
    (∃ left, Request.readFrom frame source = (.ok (some .shutdown), left) ∧
        serve ⟨p, frame⟩ source = ⟨.shutdown, ⟨p.close, []⟩, [], left⟩) ∨
      (∃ r left, r ≠ .shutdown ∧ Request.readFrom frame source = (.ok (some r), left) ∧
        serve ⟨p, frame⟩ source = (serve ⟨(p.dispatch r).1, []⟩ left).after (p.dispatch r).2) ∨
      (∃ answer left unfinished, (∀ r, answer ≠ .ok (some r)) ∧
        Request.readFrom frame source = (answer, left) ∧
        serve ⟨p, frame⟩ source = ⟨.channelClosed, ⟨p.close, unfinished⟩, [], left⟩) := by
  induction source generalizing frame with
  | nil => exact .inr (.inr ⟨_, _, frame, frame.atEnd_ne, rfl, rfl⟩)
  | cons chunk source ih =>
    cases chunk with
    | fault e =>
      by_cases again : e.kind = .interrupted
      · have read : Request.readFrom frame (.fault e :: source) = Request.readFrom frame source :=
          if_pos again
        have served : serve ⟨p, frame⟩ (.fault e :: source) = serve ⟨p, frame⟩ source := by
          simp only [serve, receive, if_pos again]
        rw [read, served]
        exact ih frame
      · refine .inr (.inr ⟨.error (frame.atFault e), source, frame, nofun, if_neg again, ?_⟩)
        simp only [serve, receive, if_neg again]
        rfl
    | data bytes =>
      cases bytes with
      | nil => exact .inr (.inr ⟨_, _, frame, frame.atEnd_ne, rfl, rfl⟩)
      | cons b bs =>
        have served : serve ⟨p, frame⟩ (.data (b :: bs) :: source) =
            goOn source (receiveAll ⟨p, frame⟩ (b :: bs)) := serve_putBack ⟨p, frame⟩ (b :: bs) source
        rw [served, Request.readFrom]
        rcases frame.pushAll_spec (b :: bs) with ⟨r, taken, rest, pushed, -, -⟩ | ⟨pushed, -⟩
        · rw [pushed]
          by_cases last : r = .shutdown
          · subst last
            exact .inl ⟨_, rfl, by rw [receiveAll_of_shutdown pushed]; rfl⟩
          · refine .inr (.inl ⟨r, _, last, rfl, ?_⟩)
            rw [serve_putBack]
            exact goOn_of_request pushed last source
        · rw [pushed, receiveAll_of_open pushed]
          exact ih (frame ++ b :: bs)

/-- Serving is a loop that reads requests and dispatches them. It ends at the first request for it,
or where there is nothing more to read, and closes the plane. -/
theorem serve_spec (p : Plane) (source : Source) {requests : List Request}
    (listed : FrameBuffer.requests [] source.readable = requests) :
    let served := serve ⟨p, []⟩ source
    let done := p.dispatchAll (requests.takeWhile (· ≠ .shutdown))
    served.exit = (if .shutdown ∈ requests then .shutdown else .channelClosed) ∧
      served.server.plane = done.1.close ∧ served.effects = done.2 ∧
      (.shutdown ∈ requests → source.bytes =
        Request.frames (requests.takeWhile (· ≠ .shutdown)) ++
          Opcode.shutdown.code :: served.unread.bytes) := by
  intro served done
  induction requests generalizing p source with
  | nil =>
    rcases serve_cases p [] source with ⟨left, read, -⟩ | ⟨r, left, -, read, -⟩ |
      ⟨answer, left, unfinished, -, -, ended⟩
    · cases listed.symm.trans (Request.requests_of_read read).2
    · cases listed.symm.trans (Request.requests_of_read read).2
    · simp only [served, ended]
      exact ⟨rfl, rfl, rfl, nofun⟩
  | cons r requests ih =>
    rcases serve_cases p [] source with ⟨left, read, ended⟩ | ⟨r', left, other, read, goes⟩ |
      ⟨answer, left, unfinished, none, read, -⟩
    · obtain ⟨⟨frame, framed, bytes⟩, found⟩ := Request.requests_of_read read
      cases listed.symm.trans found
      cases framed
      simp only [served, ended]
      exact ⟨by simp, rfl, rfl, fun _ => bytes⟩
    · obtain ⟨⟨frame, framed, bytes⟩, found⟩ := Request.requests_of_read read
      obtain ⟨rfl, rest_listed⟩ := List.cons_eq_cons.1 (listed.symm.trans found)
      obtain ⟨exit, plane, effects, consumed⟩ := ih (p.dispatch r).1 left rest_listed.symm
      have carried : (r :: requests).takeWhile (· ≠ .shutdown) =
          r :: requests.takeWhile (· ≠ .shutdown) := by simp [other]
      have asked : .shutdown ∈ r :: requests ↔ .shutdown ∈ requests := by
        simp [Ne.symm other]
      simp only [served, done, carried, goes, asked]
      refine ⟨exit, plane, congrArg _ effects, fun last => ?_⟩
      rw [bytes, consumed last, Request.frames_cons_of_encode framed, List.append_assoc]
      rfl
    · cases listed.symm.trans (Request.requests_of_no_read read none)

end Server

/-! #### Steps -/

/-- What happens to a server that serves a source. -/
def Source.steps : Source → List ServerStep
  | [] => [.ended]
  | .data [] :: _ => [.ended]
  | .data (b :: bs) :: s => .send (b :: bs) :: steps s
  | .fault e :: s => .fault e :: steps s

namespace Server

/-- Takes steps up to the one that ends serving. -/
def takeAll (s : Server) : List ServerStep → Option ServerExit × Server × List Effect
  | [] => (none, s, [])
  | step :: steps =>
    match (s.take step).1 with
    | (some exit, s, effects) => (some exit, s, effects)
    | (none, s, effects) =>
      let (exit, s, more) := s.takeAll steps
      (exit, s, effects ++ more)

/-- Taking these steps one after the other comes to the same as serving the source. -/
theorem takeAll_steps (s : Server) (source : Source) :
    s.takeAll source.steps =
      (some (s.serve source).exit, (s.serve source).server, (s.serve source).effects) := by
  induction source generalizing s with
  | nil => rfl
  | cons chunk source ih =>
    cases chunk with
    | data bytes =>
      cases bytes with
      | nil => rfl
      | cons b bs =>
        rw [Source.steps, takeAll, take, serve]
        rcases s.receiveAll (b :: bs) with ⟨_ | exit, next, effects, rest⟩
        · simp only [ih]
        · rfl
    | fault e =>
      rw [Source.steps, takeAll, take, serve, receive]
      by_cases again : e.kind = .interrupted
      · simp only [if_pos again, ih, List.nil_append]
      · simp only [if_neg again]
        rfl

end Server

/-! ### The end -/

namespace Plane

/-- Whatever requests the front end hears of, none of them releases it. -/
theorem frontend_dispatchAll (p : Plane) (requests : List Request) :
    ∃ heard : List FrontendEvent, .released ∉ heard ∧
      (p.dispatchAll requests).1.frontend.events = p.frontend.events ++ heard := by
  induction requests generalizing p with
  | nil => exact ⟨[], List.not_mem_nil, (List.append_nil _).symm⟩
  | cons r requests ih =>
    obtain ⟨first, quiet, now⟩ := p.frontend_handle r
    obtain ⟨others, quiet', later⟩ := ih (p.dispatch r).1
    have same : (p.dispatch r).1.frontend = (p.handle r).plane.frontend := by
      rw [dispatch, statuses_eq]
    refine ⟨first ++ others, ?_, ?_⟩
    · simp [quiet, quiet']
    · rw [← List.append_assoc, ← now, ← same]
      exact later

variable {p : Plane}

/-- What was attached has been removed. -/
theorem host_close {segment : Segment} (attached : p.query.attached = some segment) :
    p.close.host = segment.remove p.host := by
  simp only [close, QueryBuffer.release, attached]

theorem segment?_close {key : UInt8} (attached : p.query.attached = some ⟨key, .memory⟩) :
    p.close.host.segment? key = none := by
  simp [host_close attached, Segment.remove, Host.removeSegment, Host.segment?]

theorem attached_close (p : Plane) : p.close.query.attached = none := by
  change (p.query.release p.host).1.attached = none
  unfold QueryBuffer.release
  split
  · assumption
  · rfl

/-- The front end is told to stop recording, and then released. -/
theorem events_close (p : Plane) :
    p.close.frontend.events = p.frontend.events ++ [.audioStopped] ++ [.released] := by
  have stopped : p.frontend.stopRecording.events = p.frontend.events ++ [.audioStopped] :=
    Frontend.events_log ..
  rw [← stopped]
  exact Frontend.events_log ..

end Plane

namespace Server

/-- Serving ends in order, whatever the plane and the source. It ends with a shutdown if a request
for one can be read before the first end or failure of the source, and with the channel closed
otherwise. The requests read before that are dispatched and no others, however the bytes are cut,
and no byte after a shutdown is taken. Afterwards execution is told to shut down and not to pause,
the segment that was attached has been removed, no recording is under way, and the front end has been
released once, after everything else. -/
theorem serve_orderly (p : Plane) (source : Source) :
    let served := serve ⟨p, []⟩ source
    let decoded := Request.decoded source
    let carried := decoded.takeWhile (· ≠ .shutdown)
    let last := (p.dispatchAll carried).1
    let plane := served.server.plane
    served.exit = (if .shutdown ∈ decoded then .shutdown else .channelClosed) ∧
      (plane = last.close ∧ served.effects = (p.dispatchAll carried).2) ∧
      (∀ other : Source, other.readable = source.readable →
        (serve ⟨p, []⟩ other).exit = served.exit ∧ (serve ⟨p, []⟩ other).server.plane = plane ∧
          (serve ⟨p, []⟩ other).effects = served.effects) ∧
      (.shutdown ∈ decoded → source.bytes =
        Request.frames carried ++ Opcode.shutdown.code :: served.unread.bytes) ∧
      (plane.run.shutdown = true ∧ plane.run.paused = false) ∧
      (plane.query.attached = none ∧
        (∀ segment, last.query.attached = some segment → plane.host = segment.remove last.host) ∧
        ∀ key, last.query.attached = some ⟨key, .memory⟩ → plane.host.segment? key = none) ∧
      plane.frontend.recording = none ∧
      ∃ heard, .released ∉ heard ∧
        plane.frontend.events = p.frontend.events ++ heard ++ [.released] := by
  intro served decoded carried last plane
  obtain ⟨exit, closed, effects, consumed⟩ := serve_spec p source (Request.decoded_eq source).symm
  have ended : plane = last.close := closed
  refine ⟨exit, ⟨closed, effects⟩, ?_, consumed, ?_, ⟨?_, ?_, ?_⟩, ?_, ?_⟩
  · -- the cuts
    intro other same
    have read : Request.decoded other = decoded := by
      rw [Request.decoded_eq, same, ← Request.decoded_eq]
    obtain ⟨exit', closed', effects', -⟩ := serve_spec p other (Request.decoded_eq other).symm
    rw [read] at exit' closed' effects'
    exact ⟨exit'.trans exit.symm, closed'.trans closed.symm, effects'.trans effects.symm⟩
  · rw [ended]
    exact ⟨rfl, rfl⟩
  · -- the segment
    rw [ended]
    exact last.attached_close
  · intro segment attached
    rw [ended]
    exact Plane.host_close attached
  · intro key attached
    rw [ended]
    exact Plane.segment?_close attached
  · rw [ended]
    rfl
  · -- the front end
    obtain ⟨heard, quiet, events⟩ := p.frontend_dispatchAll carried
    have heard_last : last.frontend.events = p.frontend.events ++ heard := events
    refine ⟨heard ++ [.audioStopped], by simp [quiet], ?_⟩
    rw [ended, Plane.events_close, heard_last, List.append_assoc p.frontend.events]

end Server

end ConsoleBus
