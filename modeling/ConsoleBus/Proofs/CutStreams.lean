import ConsoleBus.Proofs.RequestStream

/-!
Streams of requests that end too early. Wherever the bytes of some frames are cut, a number of
frames are whole and the next one has lost its end (`Request.Cut`). The reader answers with the
whole ones and then finds the end: a clean one if nothing is left over, and otherwise an end inside
the frame whose opcode it has seen (`Request.readAll_of_cut`). A part of a frame never reads as a
request, because no frame begins another one (`Request.read_of_part`).
-/

namespace ConsoleBus

namespace Request

variable {r : Request} {requests : List Request} {frame part : Bytes} {s : Source} {k n : Nat}

/-- Every request of the list has a frame. -/
def Framed (requests : List Request) : Prop := ∀ r ∈ requests, ∃ frame, r.encode = .ok frame

/-! ### A part of a frame -/

/-- Reading from a channel that holds the beginning of a frame, and not all of it, finds the end
inside that frame. -/
theorem read_of_part (hs : s.Steady) {rest : Bytes} (h : r.encode = .ok (part ++ rest))
    (begun : part ≠ []) (lost : rest ≠ []) (bytes : s.bytes = part) :
    read s = (.error (.truncated r.opcode), []) := by
  rcases readFrom_spec hs [] with
    ⟨r', taken, s', -, split, whole, -⟩ | ⟨-, -, spent⟩ | ⟨op, tail, answer, split, -⟩
  · -- a frame within the part would begin the frame that was cut
    rw [List.nil_append] at whole
    have longer : ofFrame? (taken ++ (s'.bytes ++ rest)) = some r := by
      rw [← List.append_assoc, ← split, bytes]
      exact ofFrame?_of_encode h
    have stop := eq_nil_of_ofFrame?_append whole longer
    exact absurd (List.append_eq_nil_iff.1 stop).2 lost
  · rw [bytes] at spent
    exact absurd spent begun
  · -- the opcode is the first byte of the part
    have first : part ++ rest = r.opcode :: r.payload := (encode_eq_ok_iff_obstacle.1 h).2
    rw [List.nil_append, bytes] at split
    rw [split, List.cons_append] at first
    rw [← (List.cons.inj first).1]
    exact answer

/-! ### Frames that are cut -/

theorem sent_eq_self (framed : Framed requests) : sent requests = requests := by
  refine List.filter_eq_self.2 fun r hr => ?_
  obtain ⟨frame, h⟩ := framed r hr
  simp [h, Except.toOption]

theorem Framed.take (framed : Framed requests) (n : Nat) : Framed (requests.take n) :=
  fun r hr => framed r (List.mem_of_mem_take hr)

theorem frames_append (rs rs' : List Request) : frames (rs ++ rs') = frames rs ++ frames rs' := by
  simp [frames]

theorem length_frames_take_le (requests : List Request) {i j : Nat} (h : i ≤ j) :
    (frames (requests.take i)).length ≤ (frames (requests.take j)).length := by
  obtain ⟨d, rfl⟩ := Nat.exists_eq_add_of_le h
  rw [List.take_add, frames_append, List.length_append]
  exact Nat.le_add_right _ _

/-- The first `k` bytes of the frames are the first `n` frames and a part of the next one, from
which something is missing. -/
structure Cut (requests : List Request) (k n : Nat) (part : Bytes) : Prop where
  count_le : n ≤ requests.length
  bytes_eq : (frames requests).take k = frames (requests.take n) ++ part
  whole_iff : ∀ i ≤ requests.length, (frames (requests.take i)).length ≤ k ↔ i ≤ n
  part_lost : part = [] ∨
    ∃ r rest, requests[n]? = some r ∧ r.encode = .ok (part ++ rest) ∧ rest ≠ []

/-- One more frame in front, all of it within the cut. -/
theorem Cut.cons (cut : Cut requests k n part) (h : r.encode = .ok frame) :
    Cut (r :: requests) (frame.length + k) (n + 1) part where
  count_le := Nat.succ_le_succ cut.count_le
  bytes_eq := by
    rw [frames_cons_of_encode h, List.take_length_add_append, cut.bytes_eq, List.take_succ_cons,
      frames_cons_of_encode h, List.append_assoc]
  whole_iff := by
    intro i hi
    cases i with
    | zero => simp [frames]
    | succ i =>
      have later := cut.whole_iff i (Nat.le_of_succ_le_succ hi)
      rw [List.take_succ_cons, frames_cons_of_encode h, List.length_append]
      omega
  part_lost := cut.part_lost

/-- A cut inside the first frame. -/
theorem cut_first (h : r.encode = .ok frame) (short : k < frame.length) :
    Cut (r :: requests) k 0 (frame.take k) where
  count_le := Nat.zero_le _
  bytes_eq := by
    rw [frames_cons_of_encode h, List.take_append_of_le_length (Nat.le_of_lt short)]
    rfl
  whole_iff := by
    intro i _
    cases i with
    | zero => simp [frames]
    | succ i =>
      rw [List.take_succ_cons, frames_cons_of_encode h, List.length_append]
      omega
  part_lost := by
    refine .inr ⟨r, frame.drop k, rfl, by rwa [List.take_append_drop], ?_⟩
    intro nothing
    have := List.drop_eq_nil_iff.1 nothing
    omega

/-- Every cut leaves so many frames whole. -/
theorem exists_cut (framed : Framed requests) (k : Nat) : ∃ n part, Cut requests k n part := by
  induction requests generalizing k with
  | nil => exact ⟨0, [], Nat.le_refl 0, by simp [frames], by simp [frames], .inl rfl⟩
  | cons r requests ih =>
    obtain ⟨⟨frame, h⟩, later⟩ := List.forall_mem_cons.1 framed
    by_cases short : k < frame.length
    · exact ⟨0, _, cut_first h short⟩
    · obtain ⟨spare, rfl⟩ := Nat.exists_eq_add_of_le (Nat.le_of_not_lt short)
      obtain ⟨n, part, cut⟩ := ih later spare
      exact ⟨n + 1, part, cut.cons h⟩

/-- Nothing is left over just where the bytes end with a frame. -/
theorem Cut.part_eq_nil_iff (cut : Cut requests k n part) : part = [] ↔
    ∃ i, (frames (requests.take i)).length = ((frames requests).take k).length := by
  rw [cut.bytes_eq]
  constructor
  · rintro rfl
    exact ⟨n, by rw [List.append_nil]⟩
  · rintro ⟨i, hi⟩
    -- the frames up to there are within the cut, so they are among the whole ones
    have all : requests.take (min i requests.length) = requests.take i := by
      rw [← List.take_take, List.take_length]
    have within := (cut.whole_iff (min i requests.length) (Nat.min_le_right _ _)).1 (by
      rw [all, hi, ← cut.bytes_eq]
      exact List.length_take_le _ _)
    have fewer := length_frames_take_le requests within
    rw [all, hi, List.length_append] at fewer
    exact List.eq_nil_of_length_eq_zero (by omega)

/-- What the reader answers to the bytes of some frames up to a cut. -/
theorem readAll_of_cut (framed : Framed requests) (cut : Cut requests k n part) (hs : s.Steady)
    (bytes : s.bytes = (frames requests).take k) :
    ∃ ending, readAll s = ((requests.take n).map (fun r => .ok (some r)) ++ [ending], []) ∧
      (part = [] → ending = .ok none) ∧
      (part ≠ [] → ∃ r, requests[n]? = some r ∧ ending = .error (.truncated r.opcode)) := by
  rw [cut.bytes_eq] at bytes
  have few := length_sent_le (requests.take n)
  have all := sent_eq_self (framed.take n)
  -- the limit on the answers leaves room for the whole frames and the end
  obtain ⟨spare, room⟩ :
      ∃ spare, s.bytes.length + 1 = (sent (requests.take n)).length + (spare + 1) :=
    ⟨s.bytes.length - (sent (requests.take n)).length, by
      rw [bytes, List.length_append]
      omega⟩
  obtain ⟨s', steady, left, answers⟩ := readUpTo_frames hs bytes (spare + 1)
  rw [readAll, room, answers, all, readUpTo]
  by_cases clean : part = []
  · rw [read_of_nil steady (left.trans clean)]
    exact ⟨_, rfl, fun _ => rfl, fun begun => absurd clean begun⟩
  · obtain ⟨r, rest, next, h, lost⟩ := cut.part_lost.resolve_left clean
    rw [read_of_part steady h clean lost left]
    exact ⟨_, rfl, fun empty => absurd empty clean, fun _ => ⟨r, next, rfl⟩⟩

/-- A stream of requests that is cut after `k` bytes, however the channel delivers them, reads as
the requests whose frames are wholly within these bytes. Then the end is found: clean if the bytes
end where a frame ends, and otherwise inside the frame of the request that comes next. -/
theorem readAll_truncated (framed : Framed requests) (k : Nat) (hs : s.Steady)
    (bytes : s.bytes = (encodeInTurn [] requests).take k) :
    ∃ n ≤ requests.length,
      (∀ i ≤ requests.length, (encodeInTurn [] (requests.take i)).length ≤ k ↔ i ≤ n) ∧
      ∃ ending, readAll s = ((requests.take n).map (fun r => .ok (some r)) ++ [ending], []) ∧
        ((∃ i, (encodeInTurn [] (requests.take i)).length = s.bytes.length) → ending = .ok none) ∧
        ((¬ ∃ i, (encodeInTurn [] (requests.take i)).length = s.bytes.length) →
          ∃ r, requests[n]? = some r ∧ ending = .error (.truncated r.opcode)) := by
  simp only [encodeInTurn_eq, List.nil_append] at bytes ⊢
  obtain ⟨n, part, cut⟩ := exists_cut framed k
  obtain ⟨ending, answers, clean, inside⟩ := readAll_of_cut framed cut hs bytes
  rw [bytes, ← cut.part_eq_nil_iff]
  exact ⟨n, cut.count_le, cut.whole_iff, ending, answers, clean, inside⟩

/-- A frame with an empty path is whole, and the next one is cut inside its second word. -/
theorem cut_word_truncated :
    let requests : List Request := [.saveState [], .dumpMemory 0x80010000 16 [0x61], .ping]
    let s : Source :=
      [.data [41], .fault ⟨.interrupted, none⟩, .data [0, 22, 0x80], .data [1, 0, 0, 0, 0]]
    Framed requests ∧ s.Steady ∧ s.bytes = (encodeInTurn [] requests).take 9 ∧
      (readAll s).1 = [.ok (some (.saveState [])), .error (.truncated 22)] := by
  intro requests s
  have framed : Framed requests := by
    intro r hr
    simp only [requests, List.mem_cons, List.not_mem_nil, or_false] at hr
    rcases hr with rfl | rfl | rfl <;> exact ⟨_, rfl⟩
  have steady : s.Steady := by simp [s, Source.Steady, Chunk.Steady]
  have bytes : s.bytes = (encodeInTurn [] requests).take 9 := by decide
  obtain ⟨n, -, whole, ending, answers, -, inside⟩ := readAll_truncated framed 9 steady bytes
  have one : n = 1 := by
    have first := (whole 1 (by decide)).1 (by decide)
    have second := mt (whole 2 (by decide)).2 (by decide)
    omega
  subst one
  have cut : ¬ ∃ i, (encodeInTurn [] (requests.take i)).length = s.bytes.length := by
    rintro ⟨i, hi⟩
    by_cases all : requests.length ≤ i
    · rw [List.take_of_length_le all] at hi
      exact absurd hi (by decide)
    · have early : ∀ i < 3, (encodeInTurn [] (requests.take i)).length ≠ s.bytes.length := by decide
      exact early i (Nat.lt_of_not_le all) hi
  obtain ⟨r, next, rfl⟩ := inside cut
  cases next
  exact ⟨framed, steady, bytes, congrArg Prod.fst answers⟩

end Request

end ConsoleBus
