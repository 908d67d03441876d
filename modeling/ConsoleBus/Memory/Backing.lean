import ConsoleBus.Bytes

/-!
A block of `n` bytes. `Backing.get` is the one view of it: a byte for each offset, and zero past the
end. `get_write` and `get_fill` say what the two ways of changing a block do to that view, and
`toList_read` reads a range through it, so nothing else looks inside a block.
-/

namespace ConsoleBus

/-- `n` copies of `v`, put together by doubling. -/
def repeatByte (n : Nat) (v : UInt8) : ByteArray :=
  if n = 0 then ByteArray.empty
  else
    let half := repeatByte (n / 2) v
    if n % 2 = 0 then half ++ half else (half ++ half).push v
termination_by n
decreasing_by omega

theorem data_repeatByte (n : Nat) (v : UInt8) :
    (repeatByte n v).data = Array.replicate n v := by
  induction n using Nat.strongRecOn with
  | ind n ih =>
    rw [repeatByte]
    split
    · next h => subst h; rfl
    · next h =>
      have half := ih (n / 2) (by omega)
      split
      · rw [ByteArray.data_append, half, Array.replicate_append_replicate]
        congr 1; omega
      · rw [ByteArray.data_push, ByteArray.data_append, half, Array.replicate_append_replicate,
          ← Array.replicate_succ]
        congr 1; omega

theorem size_repeatByte (n : Nat) (v : UInt8) : (repeatByte n v).size = n := by
  rw [← ByteArray.size_data, data_repeatByte, Array.size_replicate]

/-- A block of exactly `n` bytes. -/
structure Backing (n : Nat) where
  bytes : ByteArray
  size_eq : bytes.size = n

namespace Backing

variable {n : Nat}

/-- The block whose bytes are all `v`. -/
def filled (n : Nat) (v : UInt8) : Backing n := ⟨repeatByte n v, size_repeatByte n v⟩

/-- The byte at an offset, zero past the end. -/
def get (b : Backing n) (i : Nat) : UInt8 :=
  if h : i < b.bytes.size then b.bytes[i] else 0

theorem get_eq (b : Backing n) (i : Nat) : b.get i = b.bytes.data[i]?.getD 0 := by
  unfold get
  split
  · next h =>
    have h' : i < b.bytes.data.size := by rw [ByteArray.size_data]; exact h
    rw [Array.getElem?_eq_getElem h', Option.getD_some, ByteArray.getElem_eq_getElem_data]
  · next h =>
    have h' : b.bytes.data.size ≤ i := by rw [ByteArray.size_data]; omega
    rw [Array.getElem?_eq_none h', Option.getD_none]

/-- The view determines the block. -/
theorem ext_get {a b : Backing n} (h : ∀ i, i < n → a.get i = b.get i) : a = b := by
  obtain ⟨xs, hx⟩ := a
  obtain ⟨ys, hy⟩ := b
  have : xs = ys := by
    apply ByteArray.ext
    apply Array.ext
    · rw [ByteArray.size_data, ByteArray.size_data, hx, hy]
    · intro i h₁ h₂
      have hi : i < n := by rw [ByteArray.size_data] at h₁; omega
      have e := h i hi
      rw [get_eq, get_eq] at e
      simpa [Array.getElem?_eq_getElem h₁, Array.getElem?_eq_getElem h₂] using e
  subst this
  rfl

theorem get_filled (v : UInt8) (i : Nat) : (filled n v).get i = if i < n then v else 0 := by
  rw [get_eq, filled, data_repeatByte, Array.getElem?_replicate]
  split <;> rfl

/-- The bytes `offset, …, offset + len - 1`, as far as the block reaches. -/
def slice (b : Backing n) (offset len : Nat) : ByteArray := b.bytes.extract offset (offset + len)

/-- A range of the block, or nothing if it runs past the end. -/
def read? (b : Backing n) (offset len : Nat) : Option Bytes :=
  if offset + len ≤ n then some (b.slice offset len).data.toList else none

/-- Puts `bytes` at `offset`, where there is room for them. -/
def put (b : Backing n) (offset : Nat) (bytes : Bytes) (h : offset + bytes.length ≤ n) :
    Backing n :=
  ⟨bytes.toByteArray.copySlice 0 b.bytes offset bytes.length, by
    rw [← ByteArray.size_data]
    simp only [ByteArray.copySlice, List.data_toByteArray, Array.size_append, Array.size_extract,
      List.size_toArray, ByteArray.size_data, b.size_eq]
    omega⟩

/-- Puts `bytes` at `offset`, or nothing if they would run past the end. -/
def write? (b : Backing n) (offset : Nat) (bytes : Bytes) : Option (Backing n) :=
  if h : offset + bytes.length ≤ n then some (b.put offset bytes h) else none

/-- Puts `bytes` at `offset`, or leaves the block as it is if they would run past the end. A block
that nobody else holds is changed in place. -/
def write (b : Backing n) (offset : Nat) (bytes : Bytes) : Backing n :=
  if h : offset + bytes.length ≤ n then b.put offset bytes h else b

theorem write_eq_getD (b : Backing n) (offset : Nat) (bytes : Bytes) :
    b.write offset bytes = (b.write? offset bytes).getD b := by
  unfold write write?
  split <;> rfl

/-- Puts the bytes of an array at `offset`, or nothing if they would run past the end. -/
def writeArray? (b : Backing n) (offset : Nat) (bytes : ByteArray) : Option (Backing n) :=
  if h : offset + bytes.size ≤ n then
    some ⟨bytes.copySlice 0 b.bytes offset bytes.size, by
      rw [← ByteArray.size_data]
      simp only [ByteArray.copySlice, Array.size_append, Array.size_extract, ByteArray.size_data,
        b.size_eq]
      omega⟩
  else none

theorem writeArray?_eq (b : Backing n) (offset : Nat) (bytes : ByteArray) :
    b.writeArray? offset bytes = b.write? offset bytes.data.toList := by
  have same : bytes.data.toList.toByteArray = bytes := by
    apply ByteArray.ext
    simp [List.data_toByteArray]
  have len : bytes.data.toList.length = bytes.size := by
    rw [Array.length_toList, ByteArray.size_data]
  simp only [writeArray?, write?, put, same, len]

theorem read?_eq_some_iff {b : Backing n} {offset len : Nat} {bytes : Bytes} :
    b.read? offset len = some bytes ↔
      offset + len ≤ n ∧ bytes = (List.range len).map fun i => b.get (offset + i) := by
  have key (h : offset + len ≤ n) :
      (b.slice offset len).data.toList = (List.range len).map fun i => b.get (offset + i) := by
    apply List.ext_getElem
    · simp only [slice, ByteArray.data_extract, Array.length_toList, Array.size_extract,
        ByteArray.size_data, b.size_eq, List.length_map, List.length_range]
      omega
    · intro i h₁ h₂
      simp only [List.length_map, List.length_range] at h₂
      have hi : offset + i < b.bytes.data.size := by rw [ByteArray.size_data, b.size_eq]; omega
      simp only [slice, ByteArray.data_extract, Array.getElem_toList, Array.getElem_extract,
        List.getElem_map, List.getElem_range, get_eq, Array.getElem?_eq_getElem hi,
        Option.getD_some]
  unfold read?
  split
  · next h => simp [key h, h, eq_comm]
  · next h => simp [h]

theorem get_write {b c : Backing n} {offset : Nat} {bytes : Bytes}
    (h : b.write? offset bytes = some c) (i : Nat) :
    c.get i = if offset ≤ i then (bytes[i - offset]?).getD (b.get i) else b.get i := by
  unfold write? at h
  split at h
  · next hn =>
    injection h with h
    subst h
    have hb : b.bytes.data.size = n := by rw [ByteArray.size_data, b.size_eq]
    have left : min offset n = offset := by omega
    simp only [get_eq, put, ByteArray.copySlice, List.data_toByteArray, List.size_toArray,
      Nat.sub_zero, Nat.zero_add, Nat.min_self, Array.getElem?_append, Array.size_extract,
      Array.size_append, Array.getElem?_extract, hb, left, List.getElem?_toArray]
    by_cases h₁ : offset ≤ i
    · by_cases h₂ : i - offset < bytes.length
      · rw [if_pos h₁, if_pos (by omega), if_neg (by omega), if_pos h₂, List.getElem?_eq_getElem h₂]
        rfl
      · rw [if_pos h₁, if_neg (by omega), List.getElem?_eq_none (by omega), Option.getD_none]
        by_cases h₃ : i < n
        · rw [if_pos (by omega)]
          congr 2
          omega
        · rw [if_neg (by omega), Array.getElem?_eq_none (by omega)]
    · rw [if_neg h₁, if_pos (by omega), if_pos (by omega), if_pos (by omega)]
  · simp at h

end Backing

end ConsoleBus
