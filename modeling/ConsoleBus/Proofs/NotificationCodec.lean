import ConsoleBus.Proofs.Transcript

/-!
Notifications and their bytes determine each other. Any byte string is the encoding of some measured
messages followed by nothing or by bytes that no message begins (`Notification.exists_parse`), for a
reason that is one of four (`Notification.Fault`). Reading stops there and tells the reason, so it
succeeds on the encodings of measured messages and on nothing else, and where it fails it names the
place (`Notification.decode_inverts_encodeAll`).
-/

namespace ConsoleBus

namespace Notification

variable {length : UInt8 → Option Nat} {ns : List Notification} {bytes rest : Bytes}
  {e : NotificationError} {offset : Nat}

/-- Why no message can be read off bytes that start at an offset of the stream. -/
inductive Fault (length : UInt8 → Option Nat) (offset : Nat) : Bytes → NotificationError → Prop
  /-- The tag of a hook event is the last byte. -/
  | loneTag : Fault length offset [hookTag] (.truncated offset)
  /-- A hook event has fewer bytes than its key calls for. -/
  | shortValue {key : UInt8} {n : Nat} {value : Bytes} (known : length key = some n)
      (short : value.length < n) : Fault length offset (hookTag :: key :: value) (.truncated offset)
  | unknownKey {key : UInt8} {value : Bytes} (unknown : length key = none) :
      Fault length offset (hookTag :: key :: value) (.unknownKey key)
  | unknownStatus {tag : UInt8} {rest : Bytes} (other : tag ≠ hookTag)
      (unknown : Status.ofCode? tag = none) : Fault length offset (tag :: rest) (.unknownStatus tag)

/-- The bytes stop inside a hook event: at its tag, or with fewer bytes than its key calls for. -/
def StopsInEvent (length : UInt8 → Option Nat) (rest : Bytes) : Prop :=
  rest = [hookTag] ∨
    ∃ key n value, rest = hookTag :: key :: value ∧ length key = some n ∧ value.length < n

/-! ### The front of the stream -/

/-- A fault is what reading answers. -/
theorem decodeFrom_of_fault (fault : Fault length offset bytes e) :
    decodeFrom length offset bytes = .error e := by
  rw [decodeFrom.eq_def]
  cases fault with
  | loneTag => rfl
  | @shortValue key n value known short =>
    have taken : (value.take n).length < n := by
      rw [List.length_take]
      omega
    simp only [if_true, known, taken]
  | unknownKey unknown => simp only [if_true, unknown]
  | unknownStatus other unknown => simp only [other, if_false, unknown]

/-- Truncation is reported with the offset at which reading began, and only where a hook event
stops too early. -/
theorem fault_truncated_iff {start : Nat} :
    Fault length offset rest (.truncated start) ↔ start = offset ∧ StopsInEvent length rest := by
  constructor
  · intro fault
    cases fault with
    | loneTag => exact ⟨rfl, .inl rfl⟩
    | shortValue known short => exact ⟨rfl, .inr ⟨_, _, _, rfl, known, short⟩⟩
  · rintro ⟨rfl, rfl | ⟨key, n, value, rfl, known, short⟩⟩
    · exact .loneTag
    · exact .shortValue known short

/-- Bytes that go on begin with a measured message or have a fault. -/
theorem front_cases (length : UInt8 → Option Nat) (offset : Nat) (nonempty : bytes ≠ []) :
    (∃ n : Notification, n.Measured length ∧ ∃ rest, bytes = n.encode ++ rest) ∨
      ∃ e, Fault length offset bytes e := by
  obtain ⟨tag, rest, rfl⟩ := List.exists_cons_of_ne_nil nonempty
  by_cases hook : tag = hookTag
  · subst hook
    cases rest with
    | nil => exact .inr ⟨_, .loneTag⟩
    | cons key rest =>
      cases known : length key with
      | none => exact .inr ⟨_, .unknownKey known⟩
      | some n =>
        by_cases short : rest.length < n
        · exact .inr ⟨_, .shortValue known short⟩
        · have whole : (rest.take n).length = n :=
            List.length_take_of_le (Nat.le_of_not_lt short)
          refine .inl ⟨.hookFired ⟨key, rest.take n⟩, ?_, rest.drop n, ?_⟩
          · change length key = some (rest.take n).length
            rw [whole, known]
          · rw [encode, List.cons_append, List.cons_append, List.take_append_drop]
  · cases known : Status.ofCode? tag with
    | none => exact .inr ⟨_, .unknownStatus hook known⟩
    | some s =>
      refine .inl ⟨.status s, trivial, rest, ?_⟩
      rw [encode, Status.code_of_ofCode? known, List.singleton_append]

/-! ### The whole stream -/

theorem encode_ne_nil (n : Notification) : n.encode ≠ [] := by
  cases n <;> exact List.cons_ne_nil _ _

/-- Any byte string is the encoding of measured messages, up to its end or to a fault. -/
theorem exists_parse (length : UInt8 → Option Nat) (offset : Nat) (bytes : Bytes) :
    ∃ ns rest, bytes = encodeAll ns ++ rest ∧ (∀ n ∈ ns, n.Measured length) ∧
      (rest = [] ∨ ∃ e, Fault length (offset + (encodeAll ns).length) rest e) := by
  -- the rest after a message is shorter, and its faults are told from where it starts
  induction size : bytes.length using Nat.strongRecOn generalizing bytes offset with
  | ind size ih =>
    by_cases blank : bytes = []
    · exact ⟨[], [], blank, by simp, .inl rfl⟩
    · rcases front_cases length offset blank with ⟨n, first, rest, rfl⟩ | ⟨e, fault⟩
      · have pos := List.length_pos_iff.2 n.encode_ne_nil
        rw [List.length_append] at size
        obtain ⟨ns, tail, rfl, others, ending⟩ :=
          ih rest.length (by omega) (offset + n.encode.length) rest rfl
        refine ⟨n :: ns, tail, ?_, List.forall_mem_cons.2 ⟨first, others⟩, ?_⟩
        · rw [encodeAll_cons, List.append_assoc]
        · rwa [encodeAll_cons, List.length_append, ← Nat.add_assoc]
      · exact ⟨[], bytes, rfl, by simp, .inr ⟨e, fault⟩⟩

/-- Measured messages that end the stream are what is read. -/
theorem decode_eq_ok_iff : decode length bytes = .ok ns ↔
    bytes = encodeAll ns ∧ ∀ n ∈ ns, n.Measured length := by
  constructor
  · intro read
    obtain ⟨ns', rest, rfl, measured, rfl | ⟨e, fault⟩⟩ := exists_parse length 0 bytes
    · rw [List.append_nil] at read ⊢
      rw [decode_encodeAll measured] at read
      cases read
      exact ⟨rfl, measured⟩
    · rw [decode, decodeFrom_encodeAll_append measured, decodeFrom_of_fault fault] at read
      cases read
  · rintro ⟨rfl, measured⟩
    exact decode_encodeAll measured

/-- A fault behind measured messages is what is told. -/
theorem decode_eq_error_iff : decode length bytes = .error e ↔
    ∃ ns rest, bytes = encodeAll ns ++ rest ∧ (∀ n ∈ ns, n.Measured length) ∧
      Fault length (encodeAll ns).length rest e := by
  constructor
  · intro told
    obtain ⟨ns, rest, rfl, measured, rfl | ⟨e', fault⟩⟩ := exists_parse length 0 bytes
    · rw [List.append_nil, decode_encodeAll measured] at told
      cases told
    · refine ⟨ns, rest, rfl, measured, ?_⟩
      rw [decode, decodeFrom_encodeAll_append measured, decodeFrom_of_fault fault] at told
      cases told
      rwa [Nat.zero_add] at fault
  · rintro ⟨ns, rest, rfl, measured, fault⟩
    rw [decode, decodeFrom_encodeAll_append measured, Nat.zero_add, decodeFrom_of_fault fault]
    rfl

/-- Reading and encoding are inverse to each other: a byte string reads as some messages just when
it is their encoding and each value has the length that its key calls for. Where reading fails, the
bytes before the message at fault are the encoding of such messages, and the fault is the one that
is told; truncation is told, with the offset of that message, just where the stream stops inside a
hook event. -/
theorem decode_inverts_encodeAll (length : UInt8 → Option Nat) (bytes : Bytes) :
    (∀ ns, decode length bytes = .ok ns ↔
        bytes = encodeAll ns ∧ ∀ n ∈ ns, n.Measured length) ∧
      (∀ e, decode length bytes = .error e ↔ ∃ ns rest, bytes = encodeAll ns ++ rest ∧
        (∀ n ∈ ns, n.Measured length) ∧ Fault length (encodeAll ns).length rest e) ∧
      (∀ offset, decode length bytes = .error (.truncated offset) ↔
        ∃ ns rest, bytes = encodeAll ns ++ rest ∧ (∀ n ∈ ns, n.Measured length) ∧
          offset = (encodeAll ns).length ∧ StopsInEvent length rest) := by
  refine ⟨fun ns => decode_eq_ok_iff, fun e => decode_eq_error_iff, fun offset => ?_⟩
  simp only [decode_eq_error_iff, fault_truncated_iff]

/-- A value of two zeros, a status, and an event that has lost its last byte. -/
example : decode (fun _ => some 2) [0, 3, 0, 0, 12, 0, 9, 1] = .error (.truncated 5) := by cbv

end Notification

end ConsoleBus
