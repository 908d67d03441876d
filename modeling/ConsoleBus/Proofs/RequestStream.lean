import ConsoleBus.Channel.Reader
import ConsoleBus.Proofs.Frames

/-!
Requests over a channel. A channel may cut its bytes anywhere and may ask for a read to be repeated;
the reader takes the bytes up to the end of the first frame, or finds the end, clean or not
(`Request.readFrom_spec`). Since no frame begins another one, reading gives back just the requests
that were encoded, and encoding what was read gives back the bytes
(`Request.encode_read_stream`).
-/

namespace ConsoleBus

/-! ### Channels -/

/-- An entry that a read gets bytes from, or that has the read repeated. -/
def Chunk.Steady : Chunk → Prop
  | .data bytes => bytes ≠ []
  | .fault e => e.kind = .interrupted

/-- A channel without failures that ends where its bytes do. -/
def Source.Steady (s : Source) : Prop := ∀ chunk ∈ s, chunk.Steady

namespace Source

theorem bytes_cons (chunk : Chunk) (s : Source) :
    bytes (chunk :: s) = chunkBytes chunk ++ s.bytes := List.flatMap_cons

theorem steady_cons {chunk : Chunk} {s : Source} :
    Steady (chunk :: s) ↔ chunk.Steady ∧ s.Steady := List.forall_mem_cons

theorem bytes_putBack (rest : Bytes) (s : Source) : (putBack rest s).bytes = rest ++ s.bytes := by
  unfold putBack
  split
  · next blank => rw [blank, List.nil_append]
  · exact bytes_cons _ s

theorem Steady.putBack {s : Source} (hs : s.Steady) (rest : Bytes) :
    (Source.putBack rest s).Steady := by
  unfold Source.putBack
  split
  · exact hs
  · next nonempty => exact steady_cons.2 ⟨nonempty, hs⟩

end Source

namespace FrameBuffer

/-! ### One frame -/

/-- No beginning of the bytes completes the frame. -/
def Open (frame : FrameBuffer) (bytes : Bytes) : Prop :=
  ∀ taken, taken <+: bytes → taken ≠ [] → Request.ofFrame? (frame ++ taken) = none

theorem open_nil (frame : FrameBuffer) : frame.Open [] := fun _ part nonempty =>
  absurd (List.prefix_nil.1 part) nonempty

theorem open_cons {frame : FrameBuffer} {b : UInt8} {bs : Bytes}
    (first : Request.ofFrame? (frame ++ [b]) = none) (later : Open (frame ++ [b]) bs) :
    frame.Open (b :: bs) := by
  intro taken part nonempty
  cases taken with
  | nil => exact absurd rfl nonempty
  | cons b' taken =>
    obtain ⟨rfl, part'⟩ := List.cons_prefix_cons.1 part
    by_cases one : taken = []
    · rw [one]
      exact first
    · have := later taken part' one
      rwa [List.append_assoc, List.singleton_append] at this

/-- Open up to some bytes and open after them is open altogether. -/
theorem open_append {frame : FrameBuffer} {bs cs : Bytes} (first : frame.Open bs)
    (later : Open (frame ++ bs) cs) : frame.Open (bs ++ cs) := by
  induction bs generalizing frame with
  | nil => simpa using later
  | cons b bs ih =>
    have one : Request.ofFrame? (frame ++ [b]) = none :=
      first [b] (List.prefix_append [b] bs) (by simp)
    refine open_cons one (ih (fun taken part _ => ?_) (by simpa using later))
    have := first (b :: taken) (List.cons_prefix_cons.2 ⟨rfl, part⟩) (by simp)
    rwa [List.append_assoc, List.singleton_append]

/-- Adding bytes ends with the first frame that they complete, or takes them all. -/
theorem pushAll_spec (frame : FrameBuffer) (bytes : Bytes) :
    (∃ r taken rest, frame.pushAll bytes = ([], some r, rest) ∧ bytes = taken ++ rest ∧
        Request.ofFrame? (frame ++ taken) = some r) ∨
      (frame.pushAll bytes = (frame ++ bytes, none, []) ∧ frame.Open bytes) := by
  induction bytes generalizing frame with
  | nil => exact .inr ⟨by simp [pushAll], open_nil frame⟩
  | cons b bs ih =>
    unfold pushAll push
    cases first : Request.ofFrame? (frame ++ [b]) with
    | some r => exact .inl ⟨r, [b], bs, rfl, rfl, first⟩
    | none =>
      rcases ih (frame ++ [b]) with ⟨r, taken, rest, pushed, rfl, whole⟩ | ⟨pushed, later⟩
      · refine .inl ⟨r, b :: taken, rest, pushed, rfl, ?_⟩
        rwa [List.append_assoc, List.singleton_append] at whole
      · refine .inr ⟨?_, open_cons first later⟩
        simp only [pushed, List.append_assoc, List.singleton_append]

end FrameBuffer

namespace Request

/-- Reading over a steady channel takes the bytes up to the end of the first frame, or finds a clean
end, or an end inside a frame. -/
theorem readFrom_spec {s : Source} (hs : s.Steady) (frame : FrameBuffer) :
    (∃ r taken s', readFrom frame s = (.ok (some r), s') ∧ s.bytes = taken ++ s'.bytes ∧
        ofFrame? (frame ++ taken) = some r ∧ s'.Steady) ∨
      (readFrom frame s = (.ok none, []) ∧ frame = [] ∧ s.bytes = []) ∨
      (∃ op rest, readFrom frame s = (.error (.truncated op), []) ∧
        frame ++ s.bytes = op :: rest ∧ frame.Open s.bytes) := by
  induction s generalizing frame with
  | nil =>
    cases frame with
    | nil => exact .inr (.inl ⟨rfl, rfl, rfl⟩)
    | cons op rest =>
      exact .inr (.inr ⟨op, rest, rfl, List.append_nil _, FrameBuffer.open_nil _⟩)
  | cons chunk s ih =>
    obtain ⟨steady, others⟩ := Source.steady_cons.1 hs
    rw [Source.bytes_cons]
    cases chunk with
    | fault e =>
      have again : readFrom frame (.fault e :: s) = readFrom frame s := if_pos steady
      rw [again]
      exact ih others frame
    | data bytes =>
      cases bytes with
      | nil => exact absurd rfl steady
      | cons b bs =>
        rw [Source.chunkBytes]
        rcases frame.pushAll_spec (b :: bs) with
          ⟨r, taken, rest, pushed, whole, read⟩ | ⟨pushed, first⟩
        · refine .inl ⟨r, taken, Source.putBack rest s, ?_, ?_, read, others.putBack rest⟩
          · rw [readFrom, pushed]
          · rw [Source.bytes_putBack, whole, List.append_assoc]
        · have on : readFrom frame (.data (b :: bs) :: s) = readFrom (frame ++ b :: bs) s := by
            rw [readFrom, pushed]
          rw [on]
          rcases ih others (frame ++ b :: bs) with
            ⟨r, taken, s', answer, bytes, read, steady'⟩ | ⟨-, blank, -⟩ |
              ⟨op, rest, answer, bytes, later⟩
          · refine .inl ⟨r, b :: bs ++ taken, s', answer, ?_, ?_, steady'⟩
            · rw [bytes, List.append_assoc]
            · rwa [← List.append_assoc]
          · exact absurd (List.append_eq_nil_iff.1 blank).2 (List.cons_ne_nil b bs)
          · refine .inr (.inr ⟨op, rest, answer, ?_, FrameBuffer.open_append first later⟩)
            rwa [← List.append_assoc]

/-- Reading from a channel that holds a frame gives the request and leaves what follows it. -/
theorem read_of_frame {s : Source} (hs : s.Steady) {r : Request} {frame later : Bytes}
    (hr : ofFrame? frame = some r) (bytes : s.bytes = frame ++ later) :
    ∃ s', read s = (.ok (some r), s') ∧ s'.bytes = later ∧ s'.Steady := by
  rcases readFrom_spec hs [] with
    ⟨r', taken, s', answer, bytes', hr', steady⟩ | ⟨-, -, spent⟩ | ⟨op, rest, -, -, opened⟩
  · -- one of the two frames begins the other, so they are the same
    rw [List.nil_append] at hr'
    rw [bytes] at bytes'
    rcases List.append_eq_append_iff.1 bytes' with ⟨q, whole, tail⟩ | ⟨q, whole, tail⟩
    · rw [whole] at hr'
      have stop := eq_nil_of_ofFrame?_append hr hr'
      subst stop
      rw [List.append_nil, hr] at hr'
      cases hr'
      exact ⟨s', answer, tail.symm, steady⟩
    · rw [whole] at hr
      have stop := eq_nil_of_ofFrame?_append hr' hr
      subst stop
      rw [List.append_nil, hr'] at hr
      cases hr
      exact ⟨s', answer, tail, steady⟩
  · rw [bytes] at spent
    exact absurd (List.append_eq_nil_iff.1 spent).1 (ne_nil_of_ofFrame? hr)
  · have := opened frame (by rw [bytes]; exact List.prefix_append frame later)
      (ne_nil_of_ofFrame? hr)
    rw [List.nil_append, hr] at this
    cases this

/-- Reading from a channel without bytes finds the clean end. -/
theorem read_of_nil {s : Source} (hs : s.Steady) (bytes : s.bytes = []) :
    read s = (.ok none, []) := by
  rcases readFrom_spec hs [] with ⟨r, taken, s', -, bytes', hr, -⟩ | ⟨answer, -, -⟩ |
    ⟨op, rest, -, bytes', -⟩
  · rw [bytes] at bytes'
    rw [(List.append_eq_nil_iff.1 bytes'.symm).1] at hr
    cases hr
  · exact answer
  · rw [bytes] at bytes'
    cases bytes'

/-! ### Many frames -/

/-- The requests that have a frame. -/
def sent (requests : List Request) : List Request :=
  requests.filter fun r => r.encode.toOption.isSome

/-- The frames of the requests that have one, one after the other. -/
def frames (requests : List Request) : Bytes :=
  (requests.filterMap fun r => r.encode.toOption).flatten

/-- Encodes requests in turn onto one buffer. -/
def encodeInTurn (out : Bytes) (requests : List Request) : Bytes :=
  requests.foldl (fun out r => (encodeOnto out r).1) out

variable {r : Request} {requests : List Request} {frame : Bytes}

theorem frames_cons_of_encode (h : r.encode = .ok frame) :
    frames (r :: requests) = frame ++ frames requests := by
  simp [frames, h, Except.toOption]

theorem frames_cons_of_error {e : EncodeError} (h : r.encode = .error e) :
    frames (r :: requests) = frames requests := by
  simp [frames, h, Except.toOption]

theorem sent_cons_of_encode (h : r.encode = .ok frame) :
    sent (r :: requests) = r :: sent requests := by
  simp [sent, h, Except.toOption]

theorem sent_cons_of_error {e : EncodeError} (h : r.encode = .error e) :
    sent (r :: requests) = sent requests := by
  simp [sent, h, Except.toOption]

/-- Encoding in turn adds the frames of the requests that have one, and nothing else. -/
theorem encodeInTurn_eq (out : Bytes) (requests : List Request) :
    encodeInTurn out requests = out ++ frames requests := by
  unfold encodeInTurn
  induction requests generalizing out with
  | nil => simp [frames]
  | cons r requests ih =>
    rw [List.foldl_cons, ih]
    cases h : r.encode with
    | ok frame => rw [frames_cons_of_encode h, encodeOnto, h, List.append_assoc]
    | error e => rw [frames_cons_of_error h, encodeOnto, h]

/-- There are no more requests with a frame than there are bytes in the frames. -/
theorem length_sent_le (requests : List Request) :
    (sent requests).length ≤ (frames requests).length := by
  induction requests with
  | nil => exact Nat.le_refl 0
  | cons r requests ih =>
    cases h : r.encode with
    | ok frame =>
      have pos := List.length_pos_iff.2 (ne_nil_of_ofFrame? (encode_eq_ok_iff.1 h))
      rw [sent_cons_of_encode h, frames_cons_of_encode h, List.length_append, List.length_cons]
      omega
    | error e => rwa [sent_cons_of_error h, frames_cons_of_error h]

/-- Reading frames gives their requests, one after the other. -/
theorem readUpTo_frames {s : Source} (hs : s.Steady) {tail : Bytes}
    (bytes : s.bytes = frames requests ++ tail) (limit : Nat) :
    ∃ s', s'.Steady ∧ s'.bytes = tail ∧
      readUpTo ((sent requests).length + limit) s =
        ((sent requests).map (fun r => .ok (some r)) ++ (readUpTo limit s').1,
          (readUpTo limit s').2) := by
  induction requests generalizing s with
  | nil => exact ⟨s, hs, bytes, by simp [sent]⟩
  | cons r requests ih =>
    cases h : r.encode with
    | error e =>
      rw [frames_cons_of_error h] at bytes
      rw [sent_cons_of_error h]
      exact ih hs bytes
    | ok frame =>
      rw [frames_cons_of_encode h, List.append_assoc] at bytes
      obtain ⟨s₁, answer, bytes₁, steady₁⟩ := read_of_frame hs (encode_eq_ok_iff.1 h) bytes
      obtain ⟨s', steady, bytes', answers⟩ := ih steady₁ bytes₁
      refine ⟨s', steady, bytes', ?_⟩
      rw [sent_cons_of_encode h, List.length_cons, Nat.add_right_comm, readUpTo, answer]
      simp only [answers, List.map_cons, List.cons_append]

/-- Reading that ends cleanly has read the frames of its requests, and all of the bytes. -/
theorem frames_of_readUpTo {s : Source} (hs : s.Steady) {limit : Nat}
    (answers : (readUpTo limit s).1 = requests.map (fun r => .ok (some r)) ++ [.ok none]) :
    sent requests = requests ∧ frames requests = s.bytes := by
  induction limit generalizing s requests with
  | zero => simp [readUpTo] at answers
  | succ limit ih =>
    rw [readUpTo] at answers
    rcases readFrom_spec hs [] with ⟨r, taken, s', answer, bytes, hr, steady⟩ | ⟨answer, -, spent⟩ |
      ⟨op, rest, answer, -, -⟩
    · have first : read s = (.ok (some r), s') := answer
      simp only [first] at answers
      cases requests with
      | nil => simp at answers
      | cons r' requests =>
        simp only [List.map_cons, List.cons_append, List.cons.injEq, Except.ok.injEq,
          Option.some.injEq] at answers
        obtain ⟨rfl, later⟩ := answers
        obtain ⟨all, bytes'⟩ := ih steady later
        have framed : r.encode = .ok taken := encode_eq_ok_iff.2 hr
        rw [sent_cons_of_encode framed, frames_cons_of_encode framed, all, bytes', bytes]
        exact ⟨rfl, rfl⟩
    · have first : read s = (.ok none, []) := answer
      simp only [first] at answers
      cases requests with
      | nil => exact ⟨rfl, spent.symm⟩
      | cons r requests => simp at answers
    · have first : read s = (.error (.truncated op), []) := answer
      simp only [first] at answers
      cases requests with
      | nil => simp at answers
      | cons r requests => simp at answers

/-- Encoding and reading are inverse to each other on streams. Encoding in turn adds the frames of
the requests that have one, and a request that has none changes nothing; reading the frames, cut in
any way, gives back these requests and a clean end; and whatever is read up to a clean end consists
of requests that have frames, which are the bytes that were read. -/
theorem encode_read_stream (out : Bytes) (requests : List Request) :
    encodeInTurn out requests = out ++ frames requests ∧
      (∀ r ∈ requests, ∀ buffer : Bytes,
        ((encodeOnto buffer r).2 = .ok () ↔ r ∈ sent requests) ∧
          ((encodeOnto buffer r).2 ≠ .ok () → (encodeOnto buffer r).1 = buffer)) ∧
      (∀ s : Source, s.Steady → s.bytes = frames requests →
        readAll s = ((sent requests).map (fun r => .ok (some r)) ++ [.ok none], [])) ∧
      (∀ s : Source, s.Steady →
        (readAll s).1 = requests.map (fun r => .ok (some r)) ++ [.ok none] →
        sent requests = requests ∧ encodeInTurn [] requests = s.bytes) := by
  refine ⟨encodeInTurn_eq out requests, fun r hr buffer => ?_, fun s hs bytes => ?_,
    fun s hs answers => ?_⟩
  · simp only [sent, List.mem_filter, hr, true_and, encodeOnto]
    cases r.encode <;> simp [Except.toOption]
  · -- the limit on the answers leaves room for all the requests and the end
    have room : ∃ spare, s.bytes.length + 1 = (sent requests).length + (spare + 1) :=
      ⟨s.bytes.length - (sent requests).length, by
        have := length_sent_le requests
        rw [← bytes] at this
        omega⟩
    obtain ⟨spare, room⟩ := room
    obtain ⟨s', steady, spent, answers⟩ :=
      readUpTo_frames hs (by rw [bytes, List.append_nil]) (spare + 1)
    rw [readAll, room, answers, readUpTo, read_of_nil steady spent]
  · obtain ⟨all, bytes⟩ := frames_of_readUpTo hs answers
    exact ⟨all, by rw [encodeInTurn_eq, List.nil_append, bytes]⟩

/-- Two frames that arrive in three pieces, the second of which has to be asked for twice, while a
third request has no frame. -/
theorem pieces_read :
    let requests : List Request := [.silence 7, .unknown 1, .saveState [0x61]]
    let s : Source := [.data [24], .fault ⟨.interrupted, none⟩, .data [7, 41, 1], .data [0x61]]
    s.Steady ∧ s.bytes = frames requests ∧
      readAll s = ([.ok (some (.silence 7)), .ok (some (.saveState [0x61])), .ok none], []) ∧
      encodeInTurn [] [.silence 7, .saveState [0x61]] = s.bytes := by
  intro requests s
  have steady : s.Steady := by simp [s, Source.Steady, Chunk.Steady]
  have bytes : s.bytes = frames requests := by decide
  have answers : readAll s = _ := (encode_read_stream [] requests).2.2.1 s steady bytes
  have back := (encode_read_stream [] [.silence 7, .saveState [0x61]]).2.2.2 s steady
    (congrArg Prod.fst answers)
  exact ⟨steady, bytes, answers, back.2⟩

end Request

end ConsoleBus
