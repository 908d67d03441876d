import ConsoleBus.Channel.Request

/-!
Requests and frames determine each other. A byte string reads as a request just when it is the frame
that encoding the request gives (`Request.encode_eq_ok_iff`). The opcode, and the length byte where
there is a path, settle how long a frame is (`Opcode.payloadLength`), so no frame begins another one
(`Request.eq_nil_of_ofFrame?_append`).
-/

namespace ConsoleBus

namespace Opcode

/-! ### Lengths -/

/-- Whether the payload ends with a path. -/
def hasPath : Opcode → Bool
  | dumpMemory | startAudioRecording | saveState | loadState => true
  | _ => false

/-- The length of the payload, as far as it does not depend on a path. -/
def fixedLength : Opcode → Nat
  | snapshot | silence | unsilence => 1
  | setSpeed => 4
  | poke => 5
  | drill => 6
  | dumpMemory => 8
  | queryMemory => 9
  | _ => 0

/-- The length that a payload has if it begins with these bytes. -/
def payloadLength (o : Opcode) (payload : Bytes) : Nat :=
  if o.hasPath then o.fixedLength + 1 + (payload.getD o.fixedLength 0).toNat else o.fixedLength

/-- What comes after a complete payload does not change its length. -/
theorem payloadLength_append {o : Opcode} {p : Bytes} (h : p.length = o.payloadLength p)
    (q : Bytes) : o.payloadLength (p ++ q) = o.payloadLength p := by
  unfold payloadLength at h ⊢
  split
  · next hp =>
    rw [if_pos hp] at h
    have inside : o.fixedLength < p.length := by omega
    simp only [List.getD_eq_getElem?_getD, List.getElem?_append_left inside]
  · rfl

end Opcode

namespace Request

variable {r r' : Request} {frame : Bytes}

theorem pathOf?_eq_some_iff {bytes : Bytes} {path : Path} : pathOf? bytes = some path ↔
    ∃ n : UInt8, bytes = n :: path ∧ path.length = n.toNat := by
  cases bytes with
  | nil => simp [pathOf?]
  | cons n rest =>
    simp only [pathOf?, Option.ite_none_right_eq_some, Option.some.injEq, List.cons.injEq]
    constructor
    · rintro ⟨len, rfl⟩
      exact ⟨n, ⟨rfl, rfl⟩, len⟩
    · rintro ⟨n', ⟨rfl, rfl⟩, len⟩
      exact ⟨len, rfl⟩

/-! ### Round trips -/

/-- A path reads back from its length byte and its bytes. -/
theorem pathOf?_of_length {path : Path} (short : path.length ≤ maxPathLength) :
    pathOf? (UInt8.ofNat path.length :: path) = some path := by
  refine pathOf?_eq_some_iff.2 ⟨_, rfl, ?_⟩
  simp only [maxPathLength] at short
  rw [UInt8.toNat_ofNat']
  omega

/-- What a payload tells that reads as a request: it is the payload of that request, which has
nothing in its way, and its length is the one that the opcode and the length byte settle. -/
theorem ofPayload?_inv {o : Opcode} {p : Bytes} (h : ofPayload? o p = some r) :
    r.opcode = o.code ∧ r.obstacle? = none ∧ r.payload = p ∧ p.length = o.payloadLength p := by
  -- a path that was read is short, and its length byte is the one that was read
  have path_inv {n : UInt8} {path : Path} (len : path.length = n.toNat) :
      ¬ maxPathLength < path.length ∧ UInt8.ofNat path.length = n := by
    have := n.toNat_lt
    exact ⟨by simp only [maxPathLength]; omega, by rw [len, UInt8.ofNat_toNat]⟩
  cases o with
  | dumpMemory =>
    simp only [ofPayload?] at h
    split at h
    · obtain ⟨path, hpath, rfl⟩ := Option.map_eq_some_iff.1 h
      obtain ⟨n, rfl, len⟩ := pathOf?_eq_some_iff.1 hpath
      obtain ⟨short, byte⟩ := path_inv len
      refine ⟨rfl, if_neg short, by simp [payload, byte, Bytes.ofWordBE_wordBE], ?_⟩
      simp only [Opcode.payloadLength, Opcode.hasPath, Opcode.fixedLength, List.length_cons, len,
        List.getD_cons_succ, List.getD_cons_zero, if_true]
      omega
    · cases h
  | startAudioRecording | saveState | loadState =>
    obtain ⟨path, hpath, rfl⟩ := Option.map_eq_some_iff.1 h
    obtain ⟨n, rfl, len⟩ := pathOf?_eq_some_iff.1 hpath
    obtain ⟨short, byte⟩ := path_inv len
    refine ⟨rfl, if_neg short, by simp [payload, byte], ?_⟩
    simp only [Opcode.payloadLength, Opcode.hasPath, Opcode.fixedLength, List.length_cons, len,
      List.getD_cons_zero, if_true]
    omega
  | shutdown | pause | resume | clearSnapshot | releaseQuery | stopAudioRecording | ping =>
    simp only [ofPayload?, Option.ite_none_right_eq_some, Option.some.injEq] at h
    obtain ⟨rfl, rfl⟩ := h
    exact ⟨rfl, rfl, rfl, rfl⟩
  | snapshot | silence | unsilence | queryMemory | poke | drill | setSpeed =>
    simp only [ofPayload?] at h
    split at h
    · cases h
      exact ⟨rfl, rfl, by simp [payload, Bytes.ofWordBE_wordBE], rfl⟩
    · cases h

/-- A request has a frame unless its path is too long or it claims a byte that a command owns. -/
theorem encode_eq_ok_iff_obstacle : r.encode = .ok frame ↔
    r.obstacle? = none ∧ frame = r.opcode :: r.payload := by
  unfold encode
  cases r.obstacle? <;> simp [eq_comm]

/-- The frame of a request reads as that request. -/
theorem ofFrame?_of_encode (h : r.encode = .ok frame) : ofFrame? frame = some r := by
  obtain ⟨clear, rfl⟩ := encode_eq_ok_iff_obstacle.1 h
  cases r with
  | unknown op =>
    have free : Opcode.ofCode? op = none := by
      cases owned : Opcode.ofCode? op with
      | none => rfl
      | some o => simp [obstacle?, owned] at clear
    simp [opcode, payload, ofFrame?, free]
  | dumpMemory start len path =>
    have short : path.length ≤ maxPathLength := by simpa [obstacle?, path?] using clear
    simp only [opcode, payload, ofFrame?, Opcode.ofCode?_code, ofPayload?, Bytes.ofWordBE,
      List.cons_append, List.nil_append, Bytes.wordBE_ofWordBE, pathOf?_of_length short,
      Option.map_some]
  | startAudioRecording path | saveState path | loadState path =>
    have short : path.length ≤ maxPathLength := by simpa [obstacle?, path?] using clear
    simp [opcode, payload, ofFrame?, ofPayload?, pathOf?_of_length short]
  | _ =>
    simp only [opcode, payload, ofFrame?, Opcode.ofCode?_code, ofPayload?, Bytes.ofWordBE,
      List.cons_append, List.nil_append, Bytes.wordBE_ofWordBE, if_true]

/-- What reads as a request is its frame. -/
theorem encode_of_ofFrame? (h : ofFrame? frame = some r) : r.encode = .ok frame := by
  refine encode_eq_ok_iff_obstacle.2 ?_
  cases frame with
  | nil => cases h
  | cons op p =>
    unfold ofFrame? at h
    simp only at h
    cases owned : Opcode.ofCode? op with
    | none =>
      rw [owned] at h
      simp only [Option.ite_none_right_eq_some, Option.some.injEq] at h
      obtain ⟨rfl, rfl⟩ := h
      simp [obstacle?, owned, opcode, payload]
    | some o =>
      have code := Opcode.code_of_ofCode? owned
      rw [owned] at h
      obtain ⟨opcode, clear, payload, -⟩ := ofPayload?_inv h
      exact ⟨clear, by rw [opcode, payload, code]⟩

/-- Reading inverts encoding, and encoding inverts reading. -/
theorem encode_eq_ok_iff : r.encode = .ok frame ↔ ofFrame? frame = some r :=
  ⟨ofFrame?_of_encode, encode_of_ofFrame?⟩

/-- A frame has at least its opcode. -/
theorem ne_nil_of_ofFrame? (h : ofFrame? frame = some r) : frame ≠ [] := by
  rintro rfl
  cases h

/-- No frame begins another one. -/
theorem eq_nil_of_ofFrame?_append {q : Bytes} (h : ofFrame? frame = some r)
    (h' : ofFrame? (frame ++ q) = some r') : q = [] := by
  cases frame with
  | nil => cases h
  | cons op p =>
    simp only [ofFrame?, List.cons_append] at h h'
    cases owned : Opcode.ofCode? op with
    | none =>
      rw [owned] at h'
      simp only [Option.ite_none_right_eq_some, List.append_eq_nil_iff] at h'
      exact h'.1.2
    | some o =>
      rw [owned] at h h'
      have len := (ofPayload?_inv h).2.2.2
      have len' := (ofPayload?_inv h').2.2.2
      rw [Opcode.payloadLength_append len, ← len, List.length_append] at len'
      exact List.eq_nil_of_length_eq_zero (by omega)

end Request

end ConsoleBus
